import Nucleus.Proofs.Machine.StoredState

/-!
# Events

What an event leaves in the old area of its vector. An event that names a line or a unit that does
not exist (`Event.OutOfRange`) breaks a check of the machine, any other fires its vector
(`Machine.trap_of_inRange`).
-/

namespace Nucleus

/-! ## The registers of a trapped state -/

namespace Word

theorem and_or_distrib_left (a b c : Word) : a &&& (b ||| c) = (a &&& b) ||| (a &&& c) := by
  apply UInt32.toBitVec_inj.1
  simp only [UInt32.toBitVec_and, UInt32.toBitVec_or, BitVec.and_or_distrib_left]

theorem and_or_and_mask (bits mask value : Word) :
    ((bits &&& ~~~mask) ||| value) &&& mask = value &&& mask := by
  have hcleared : mask &&& (bits &&& ~~~mask) = 0 := by
    rw [UInt32.and_comm bits, ← UInt32.and_assoc, UInt32.and_not_self, UInt32.zero_and]
  rw [UInt32.and_comm, and_or_distrib_left, hcleared, UInt32.zero_or, UInt32.and_comm]

theorem or_and_self (bits mask : Word) : (bits ||| mask) &&& mask = mask := by
  apply UInt32.toBitVec_inj.1
  ext i hi
  simp only [UInt32.toBitVec_and, UInt32.toBitVec_or, BitVec.getElem_and, BitVec.getElem_or]
  cases bits.toBitVec[i] <;> cases mask.toBitVec[i] <;> rfl

end Word

theorem Cause.code?_withCode (cause : Word) (code : ExceptionCode) :
    Cause.code? (Cause.withCode cause code) = some code := by
  simp only [Cause.code?, Cause.codeNumber, Cause.withCode, Word.and_or_and_mask]
  cases code <;> decide

theorem Status.has_assign (bits : Word) {flag : Word} (hflag : flag ≠ 0) (on : Bool) :
    Status.has (Status.assign bits flag on) flag = on := by
  unfold Status.has Status.assign
  cases on with
  | true => exact decide_eq_true (Word.or_and_self bits flag)
  | false =>
    rw [if_neg Bool.false_ne_true, UInt32.and_assoc, UInt32.not_and_self, UInt32.and_zero]
    exact decide_eq_false (Ne.symm hflag)

/-- The argument registers do not overlap. -/
theorem ProcessorState.arguments_setReg (s : ProcessorState) (n a b c : Word) :
    let t := (((s.setReg .a0 n).setReg .a1 a).setReg .a2 b).setReg .a3 c
    t.reg .a0 = n ∧ t.reg .a1 = a ∧ t.reg .a2 = b ∧ t.reg .a3 = c := by
  simp [Register.a0, Register.a1, Register.a2, Register.a3]

/-! ## What an event does -/

namespace Event

/-- The vector that an event fires. -/
def vector : Event → TrapVector
  | request _ _ _ _ _ | breakpoint => .sysBreak
  | tlb => .tlb
  | programTrap _ => .programTrap
  | timer | device _ _ _ | terminal _ _ _ | interrupt _ => .interrupt

/-- The exception code of the trap that an event causes. -/
def code : Event → ExceptionCode
  | request _ _ _ _ _ => .syscall
  | breakpoint => .breakpoint
  | tlb => .tlbInvalidLoad
  | programTrap code => code
  | timer | device _ _ _ | terminal _ _ _ | interrupt _ => .interrupt

/-- The event names a line without a pending bit or registers, or a unit without a bit. -/
def OutOfRange : Event → Prop
  | device line unit _ => line < 3 ∨ 23 < line ∨ 31 < unit
  | terminal unit _ _ => 31 < unit
  | interrupt line => 23 < line
  | _ => False

/-- The registers in which a request passes its arguments hold those of the event. -/
def Passes (s : ProcessorState) : Event → Prop
  | request number a1 a2 a3 fromUser =>
    s.a0 = number ∧ s.a1 = a1 ∧ s.a2 = a2 ∧ s.a3 = a3 ∧ s.fromUserMode = fromUser
  | _ => True

end Event

namespace Machine

/-- What stands in the old area of a vector after a trap. -/
theorem loadState_enterTrap (m : Machine) (vector : TrapVector) (code : ExceptionCode)
    (s : ProcessorState) :
    (m.enterTrap vector code s).2.loadState vector.oldArea =
      { s with cause := Cause.withCode s.cause code } :=
  loadState_storeState (plain_oldArea vector) m _

/-- The timer interrupts on its line when it has run out. -/
theorem trap_timer (m : Machine) (running : Option ProcessorState) :
    ∃ m', m.trap .timer running = .ok (.interrupt, m') ∧
      (m'.loadState TrapVector.interrupt.oldArea).cause =
        Cause.withCode (Cause.withPending 0 .timer) .interrupt :=
  ⟨_, rfl, congrArg ProcessorState.cause (loadState_enterTrap _ _ _ _)⟩

/-- An event has fired its vector, and the trapped state is in the vector's old area. -/
structure Fired (event : Event) (result : TrapVector × Machine) : Prop where
  vector : result.1 = event.vector
  code : (result.2.loadState event.vector.oldArea).code? = some event.code
  passes : event.Passes (result.2.loadState event.vector.oldArea)

theorem fired_enterTrap (event : Event) {code : ExceptionCode} (hcode : code = event.code)
    (m : Machine) (s : ProcessorState)
    (hpasses : event.Passes { s with cause := Cause.withCode s.cause code }) :
    Fired event (m.enterTrap event.vector code s) where
  vector := rfl
  code := by
    rw [loadState_enterTrap, hcode]
    exact Cause.code?_withCode _ _
  passes := by
    rw [loadState_enterTrap]
    exact hpasses

theorem fired_enterInterrupt (event : Event) (hvector : event.vector = .interrupt)
    (hcode : event.code = .interrupt) (hpasses : ∀ s, event.Passes s) (m : Machine)
    (line : Cause.Line) (s : ProcessorState) : Fired event (m.enterInterrupt line s) := by
  have h := fired_enterTrap event hcode.symm m { s with cause := Cause.withPending s.cause line }
    (hpasses _)
  rw [hvector] at h
  exact h

theorem raiseBit_eq (m : Machine) (line : Nat) {unit : UInt8} (hunit : ¬ 31 < unit) :
    ∃ m', m.raiseBit line unit = .ok m' := by
  have hlt : unit < 32 := by
    rw [UInt8.lt_iff_toNat_lt] at hunit ⊢
    exact Nat.lt_succ_of_le (Nat.le_of_not_lt hunit)
  exact ⟨_, if_pos hlt⟩

theorem raiseBit_eq_error (m : Machine) (line : Nat) {unit : UInt8} (hunit : 31 < unit) :
    m.raiseBit line unit = .error .shiftOverflow := by
  refine if_neg fun hlt => ?_
  rw [UInt8.lt_iff_toNat_lt] at hunit hlt
  exact Nat.lt_irrefl _ (Nat.lt_of_lt_of_le hlt hunit)

theorem lineOfNumber_eq {line : UInt8} (hline : ¬ 23 < line) :
    ∃ l, Cause.Line.ofNumber line = .ok l := by
  have hlt : line.toNat < 24 := by
    rw [UInt8.lt_iff_toNat_lt] at hline
    exact Nat.lt_succ_of_le (Nat.le_of_not_lt hline)
  exact ⟨_, dif_pos hlt⟩

theorem lineOfNumber_eq_error {line : UInt8} (hline : 23 < line) :
    Cause.Line.ofNumber line = .error .shiftOverflow := by
  refine dif_neg fun hlt => ?_
  rw [UInt8.lt_iff_toNat_lt] at hline
  exact Nat.lt_irrefl _ (Nat.lt_of_lt_of_le hlt hline)

/-- A device on a line that exists breaks a check only by its unit or by a line without a pending
bit. -/
theorem trap_device (m : Machine) (line unit : UInt8) (status : Word)
    (running : Option ProcessorState) (hlow : ¬ line < 3) :
    m.trap (.device line unit status) running = do
      let m ← (m.write (registersOf line.toNat unit.toNat) status).raiseBit line.toNat unit
      return m.enterInterrupt (← Cause.Line.ofNumber line)
        { running.getD .zero with cause := 0 } := by
  unfold trap registersAt
  dsimp only
  rw [if_neg hlow]
  rfl

/-- An event that names what does not exist breaks a check. -/
theorem trap_of_outOfRange {event : Event} (m : Machine) (running : Option ProcessorState)
    (h : event.OutOfRange) : ∃ cause, m.trap event running = .error cause := by
  cases event with
  | device line unit status =>
    by_cases hlow : line < 3
    · refine ⟨.subOverflow, ?_⟩
      unfold trap registersAt
      dsimp only
      rw [if_pos hlow]
      rfl
    · rw [trap_device m line unit status running hlow]
      by_cases hunit : 31 < unit
      · exact ⟨.shiftOverflow, by rw [raiseBit_eq_error _ _ hunit]; rfl⟩
      · have hline : 23 < line := (h.resolve_left hlow).resolve_right hunit
        obtain ⟨m', hm'⟩ := raiseBit_eq
          (m.write (registersOf line.toNat unit.toNat) status) line.toNat hunit
        exact ⟨.shiftOverflow, by rw [hm', lineOfNumber_eq_error hline]; rfl⟩
  | terminal unit transmitted received =>
    refine ⟨.shiftOverflow, ?_⟩
    unfold trap
    dsimp only
    rw [raiseBit_eq_error _ _ h]
    rfl
  | interrupt line =>
    refine ⟨.shiftOverflow, ?_⟩
    unfold trap
    dsimp only
    rw [lineOfNumber_eq_error h]
    rfl
  | _ => exact False.elim h

/-- Any other event fires its vector. -/
theorem trap_of_inRange {event : Event} (m : Machine) (running : Option ProcessorState)
    (h : ¬ event.OutOfRange) :
    ∃ result, m.trap event running = .ok result ∧ Fired event result := by
  cases event with
  | request number a1 a2 a3 fromUser =>
    refine ⟨_, rfl, fired_enterTrap _ rfl m _ ?_⟩
    obtain ⟨h0, h1, h2, h3⟩ :=
      ProcessorState.arguments_setReg { running.getD .zero with cause := 0 } number a1 a2 a3
    exact ⟨h0, h1, h2, h3, Status.has_assign _ (by decide) fromUser⟩
  | breakpoint => exact ⟨_, rfl, fired_enterTrap _ rfl m _ trivial⟩
  | tlb => exact ⟨_, rfl, fired_enterTrap _ rfl m _ trivial⟩
  | programTrap code => exact ⟨_, rfl, fired_enterTrap _ rfl m _ trivial⟩
  | timer => exact ⟨_, rfl, fired_enterInterrupt .timer rfl rfl (fun _ => trivial) _ _ _⟩
  | device line unit status =>
    obtain ⟨hlow, h⟩ := not_or.1 h
    obtain ⟨hline, hunit⟩ := not_or.1 h
    obtain ⟨l, hl⟩ := lineOfNumber_eq hline
    obtain ⟨m', hm'⟩ := raiseBit_eq
      (m.write (registersOf line.toNat unit.toNat) status) line.toNat hunit
    rw [trap_device m line unit status running hlow, hm', hl]
    exact ⟨_, rfl, fired_enterInterrupt (.device line unit status) rfl rfl (fun _ => trivial)
      _ _ _⟩
  | terminal unit transmitted received =>
    have hraise := fun m : Machine => raiseBit_eq m Cause.Line.terminal h
    unfold trap
    dsimp only
    generalize ((received.map _).getD _ : Machine) = m'
    obtain ⟨m'', hm''⟩ := hraise m'
    rw [hm'']
    exact ⟨_, rfl, fired_enterInterrupt (.terminal unit transmitted received) rfl rfl
      (fun _ => trivial) _ _ _⟩
  | interrupt line =>
    obtain ⟨l, hl⟩ := lineOfNumber_eq h
    unfold trap
    dsimp only
    rw [hl]
    exact ⟨_, rfl, fired_enterInterrupt (.interrupt line) rfl rfl (fun _ => trivial) _ _ _⟩

end Machine

end Nucleus
