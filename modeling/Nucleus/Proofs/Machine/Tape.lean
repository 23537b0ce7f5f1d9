import Nucleus.Machine.Basic

/-!
# The tape of a machine

Beside its memory a machine keeps a tape: the script of events to come, and a record of what the
processor was told to do. Only what drives the machine touches the tape. Memory, registers and traps
do not depend on it (`Machine.Blind`), so a machine can be given another tape before or after
(`Machine.trap_withTape`).
-/

namespace Nucleus

/-- The events to come, and what the processor was told to do. -/
structure Tape where
  script : List (Word × Event)
  resumed : List ProcessorState
  waitCount : Nat
  halted : Bool
  crashed : Bool

namespace Machine

variable {m : Machine} {t : Tape}

/-- The tape of a machine. -/
def tape (m : Machine) : Tape := ⟨m.script, m.resumed, m.waitCount, m.halted, m.crashed⟩

/-- The machine with another tape. -/
def withTape (m : Machine) (t : Tape) : Machine :=
  { m with
    script := t.script
    resumed := t.resumed
    waitCount := t.waitCount
    halted := t.halted
    crashed := t.crashed }

@[simp] theorem tape_withTape (m : Machine) (t : Tape) : (m.withTape t).tape = t := rfl

@[simp] theorem withTape_tape (m : Machine) : m.withTape m.tape = m := rfl

@[simp] theorem read_withTape (m : Machine) (t : Tape) (address : Word) :
    (m.withTape t).read address = m.read address := rfl

@[simp] theorem loadState_withTape (m : Machine) (t : Tape) (address : Word) :
    (m.withTape t).loadState address = m.loadState address := rfl

@[simp] theorem readState_withTape (m : Machine) (t : Tape) (address : Word) :
    (m.withTape t).readState address = m.readState address := rfl

/-! ## What does not depend on the tape -/

/-- A change of a machine that neither reads nor touches the tape. -/
def Blind (f : Machine → Machine) : Prop := ∀ m t, f (m.withTape t) = (f m).withTape t

theorem Blind.tape {f : Machine → Machine} (hf : Blind f) (m : Machine) :
    (f m).tape = m.tape := by
  have hsame := hf m m.tape
  rw [withTape_tape] at hsame
  exact (congrArg Machine.tape hsame).trans (tape_withTape (f m) m.tape)

theorem blind_acknowledge (d : Device) : Blind (·.acknowledge d) := by
  intro m t
  simp only [acknowledge]
  show (if d.family.isTerminal && ((m.set d.statusRegister readyStatus).hasCompleted _ ||
    (m.set d.statusRegister readyStatus).hasCompleted _) then _ else _) = _
  split
  · rfl
  · rfl

theorem blind_write (address value : Word) : Blind (·.write address value) := by
  intro m t
  simp only [write]
  split
  · cases Device.ofCommand? address with
    | none => rfl
    | some d => exact blind_acknowledge d (m.set address value) t
  · rfl

theorem blind_storeState (address : Word) (s : ProcessorState) :
    Blind (·.storeState address s) := by
  intro m t
  unfold storeState
  generalize List.range stateWords = places
  induction places generalizing m with
  | nil => rfl
  | cons i places ih =>
    have hwrite := blind_write (stateAddress address i) (s.word i) m t
    dsimp only at hwrite ih ⊢
    rw [List.foldl_cons, hwrite, ih]
    rfl

theorem blind_advance (micros : Word) : Blind (·.advance micros) := fun m t =>
  blind_write Bus.clock (m.now + micros * m.read Bus.timeScale) m t

theorem raiseBit_withTape (m : Machine) (t : Tape) (line : Nat) (unit : UInt8) :
    (m.withTape t).raiseBit line unit = (m.raiseBit line unit).map (·.withTape t) := by
  unfold raiseBit
  split
  · exact congrArg Except.ok (blind_write _ _ m t)
  · rfl

/-- A trap with the machine that it leaves given another tape. -/
def retape (t : Tape) (trapped : TrapVector × Machine) : TrapVector × Machine :=
  (trapped.1, trapped.2.withTape t)

theorem enterTrap_withTape (m : Machine) (t : Tape) (vector : TrapVector) (code : ExceptionCode)
    (s : ProcessorState) :
    (m.withTape t).enterTrap vector code s = retape t (m.enterTrap vector code s) :=
  congrArg (Prod.mk vector) (blind_storeState _ _ m t)

theorem enterInterrupt_withTape (m : Machine) (t : Tape) (line : Cause.Line)
    (s : ProcessorState) :
    (m.withTape t).enterInterrupt line s = retape t (m.enterInterrupt line s) :=
  enterTrap_withTape m t _ _ _

/-- What a trap does to the machine does not depend on the tape. -/
theorem trap_withTape (m : Machine) (t : Tape) (event : Event) (running : Option ProcessorState) :
    (m.withTape t).trap event running = (m.trap event running).map (retape t) := by
  cases event with
  | request | breakpoint | tlb | programTrap =>
    exact congrArg Except.ok (enterTrap_withTape m t _ _ _)
  | timer =>
    refine congrArg Except.ok ?_
    rw [show (m.withTape t).advance (m.withTape t).timerLeft = (m.advance m.timerLeft).withTape t
      from blind_advance m.timerLeft m t]
    exact enterInterrupt_withTape _ t _ _
  | device line unit status =>
    simp only [trap]
    cases registersAt line unit with
    | error cause => rfl
    | ok base =>
      have hwrite := blind_write base status m t
      simp only [bind, Except.bind, hwrite, raiseBit_withTape]
      cases (m.write base status).raiseBit line.toNat unit with
      | error cause => rfl
      | ok raised =>
        cases Cause.Line.ofNumber line with
        | error cause => rfl
        | ok l => exact congrArg Except.ok (enterInterrupt_withTape raised t l _)
  | terminal unit transmitted received =>
    have hhalf : ∀ (m : Machine) (address : Word) (status : Option Word),
        (status.map ((m.withTape t).write address)).getD (m.withTape t) =
          ((status.map (m.write address)).getD m).withTape t := by
      intro m address status
      cases status with
      | none => rfl
      | some status => exact blind_write address status m t
    simp only [trap, hhalf, bind, Except.bind, raiseBit_withTape]
    cases Machine.raiseBit _ _ unit with
    | error cause => rfl
    | ok raised => exact congrArg Except.ok (enterInterrupt_withTape raised t _ _)
  | interrupt line =>
    simp only [trap, bind, Except.bind]
    cases Cause.Line.ofNumber line with
    | error cause => rfl
    | ok l => exact congrArg Except.ok (enterInterrupt_withTape m t l _)

/-- A trap leaves the tape alone. -/
theorem tape_of_trap {event : Event} {running : Option ProcessorState}
    {trapped : TrapVector × Machine} (h : m.trap event running = .ok trapped) :
    trapped.2.tape = m.tape := by
  have hsame := trap_withTape m m.tape event running
  rw [withTape_tape, h] at hsame
  exact congrArg (Machine.tape ∘ Prod.snd) (Except.ok.inj hsame)

end Machine

end Nucleus
