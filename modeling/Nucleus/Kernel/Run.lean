import Nucleus.Kernel.Boot
import Nucleus.Kernel.Trap

/-!
# Running

The loop that carries out what the nucleus decides, trap after trap, until the machine halts or a
fault stops it. A run need not end, so it is given a number of rounds.
-/

namespace Nucleus.Kernel

/-- Carry out one decision and handle the trap that follows it: the next decision, or none if the
machine has halted. A fault stops the machine. -/
def round : Except Fault Decision → Action Kernel (Option (Except Fault Decision))
  | .ok (.resume _ state) => do
    let vector ← untilTrap (·.resume state)
    return some (← (dispatch vector).recover)
  | .ok .idle => do
    discard (untilTrap (·.wait))
    return some (← (dispatch .interrupt).recover)
  | .ok .halt => do
    report (.stage .info "All processes terminated, halting")
    Action.change fun k => { k with machine := k.machine.halt }
    return none
  | .error cause => do
    report (.stage .fail ("Kernel panic: " ++ cause.message))
    Action.change fun k => { k with machine := k.machine.crash }
    Action.fail cause

/-- Go on from a decision for at most `rounds` rounds: whether the machine has halted. -/
def runFrom : Nat → Except Fault Decision → Action Kernel Bool
  | 0, _ => return false
  | rounds + 1, decision => do
    match ← round decision with
    | none => return true
    | some next => runFrom rounds next

/-- Run for at most `rounds` rounds: whether the machine has halted. -/
def run (rounds : Nat) : Action Kernel Bool := do
  runFrom rounds (← schedule.recover)

end Nucleus.Kernel
