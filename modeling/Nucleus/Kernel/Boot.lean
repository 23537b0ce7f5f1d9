import Nucleus.Kernel.Family
import Nucleus.Kernel.Decision

/-!
# Bootstrap

Start-up of the nucleus: the handler states of the four traps are put in their new areas, the root
process is created, and the pseudo-clock starts.
-/

namespace Nucleus.Kernel

/-- The bytes at the top of memory that the stack of the nucleus takes. -/
def frameSize : Word := 4096

/-- The pid of the root process. -/
def rootPid : Pid := 1

/-- The address past the installed memory that the bus reports, if the memory fits the address
space and can hold the frame. -/
def ramTop? (base size : Word) : Option Word :=
  if base.toNat + size.toNat < UInt32.size ∧ frameSize ≤ size then some (base + size) else none

/-- The state of a trap handler: it runs on the stack of the nucleus in kernel mode, with interrupts
masked and virtual memory off. -/
def handlerState (board : Board) (vector : TrapVector) (ramTop : Word) : ProcessorState :=
  let s := (board.stored.withEntry (board.entry vector)).withStack ramTop
  { s with
    status := Status.assign s.status
      (Status.iec ||| Status.kuc ||| Status.unmasked ||| Status.vmc ||| Status.vmp) false }

/-- The state of the root process: interrupts enabled, its stack below that of the nucleus. -/
def rootState (entry ramTop : Word) : ProcessorState :=
  let s := { ProcessorState.zero with status := Status.iep ||| Status.unmasked }
  (s.withStack (ramTop - frameSize)).withEntry entry

/-- Report a line of the bootstrap. -/
def report (line : BootLine) : Action Kernel Unit := Action.note (.boot line)

/-- Put the state of each trap handler in its new area. -/
def installHandlers (k : Kernel) (ramTop : Word) : Kernel :=
  { k with
    machine := TrapVector.all.foldl
      (fun m vector => m.storeState vector.newArea (handlerState m.board vector ramTop)) k.machine }

/-- Create the root process. -/
def createRoot (ramTop : Word) : Action Kernel Unit := do
  let entry := (← Action.look config).rootEntry
  match ← create (rootState entry ramTop) none with
  | none =>
    report (.stage .fail "Root process")
    Action.fail .processPoolExhausted
  | some _ =>
    report (.stage .ok "Root process created")
    report (.detail ("entry " ++ Word.hex8 entry))

/-- Start up. -/
def boot : Action Kernel Unit := do
  BootLine.bannerLines.forM report
  if ← Action.look (·.config.quantumExceedsTick) then
    report (.stage .warn "Time slice longer than the pseudo-clock interval")
  let machine ← Action.look machine
  let base := machine.read Bus.ramBase
  let size := machine.read Bus.ramSize
  match ramTop? base size with
  | none =>
    report (.stage .fail "RAM geometry")
    Action.fail (.badRamGeometry base size)
  | some ramTop =>
    Action.change (·.installHandlers ramTop)
    report (.stage .ok "Trap new areas populated")
    report (.detail ("RAMTOP " ++ Word.hex8 ramTop))
    createRoot ramTop
    Action.change fun k => { k with tickUntil := k.machine.now }
    report (.stage .ok "Pseudo-clock started")

end Nucleus.Kernel
