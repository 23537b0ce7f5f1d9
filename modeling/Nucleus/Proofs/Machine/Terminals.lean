import Mathlib.Data.List.FinRange
import Mathlib.Tactic.MkIffOfInductiveProp
import Nucleus.Proofs.Machine.Event
import Nucleus.Proofs.Machine.OrdinaryWord

/-!
# The line of the terminals

Half a terminal waits for service if it has completed and the bit of its terminal is raised
(`Machine.Awaits`). Acknowledging it takes it, and nothing else, away from those that wait
(`Machine.awaits_acknowledge`). The bit of a terminal can also be raised without a half that has
completed (`Machine.Hangs`): the terminal reports something else, and no acknowledgement lowers the
bit.
-/

namespace Nucleus

/-! ## Bitmaps -/

theorem lowestRaised_eq_some_iff {bitmap : Word} {u : Fin unitsPerLine} :
    lowestRaised bitmap = some u ↔
      bitmap &&& unitBit u ≠ 0 ∧ ∀ v < u, bitmap &&& unitBit v = 0 := by
  have hfind := List.find?_ofFn_eq_some_of_injective (i := u)
    (p := fun unit => bitmap &&& unitBit unit ≠ 0) Function.injective_id
  rw [List.ofFn_id] at hfind
  simpa [lowestRaised] using hfind

theorem lowestRaised_eq_none_iff {bitmap : Word} :
    lowestRaised bitmap = none ↔ ∀ u, bitmap &&& unitBit u = 0 := by
  simp [lowestRaised, List.find?_eq_none, List.mem_finRange]

/-- Lowering the bit of a unit leaves those of the others. -/
theorem and_unitBit_of_lowered (bitmap : Word) (u v : Fin unitsPerLine) :
    bitmap &&& ~~~unitBit u &&& unitBit v = if v = u then 0 else bitmap &&& unitBit v := by
  rw [UInt32.and_assoc]
  split
  · rename_i heq
    rw [heq, UInt32.not_and_self, UInt32.and_zero]
  · rename_i hne
    have hkept : ∀ u v : Fin unitsPerLine, v ≠ u → ~~~unitBit u &&& unitBit v = unitBit v := by
      decide +kernel
    rw [hkept u v hne]

/-! ## Registers of devices -/

namespace Device

variable {d e : Device} {address : Word}

/-- An address among the bitmaps and the registers of the devices. -/
def IsBitmapOrRegister (address : Word) : Prop := 0x10000028 ≤ address ∧ address ≤ 0x100002cf

instance (address : Word) : Decidable (IsBitmapOrRegister address) :=
  inferInstanceAs (Decidable (_ ∧ _))

theorem isBitmapOrRegister_statusRegister (d : Device) : IsBitmapOrRegister d.statusRegister := by
  obtain ⟨family, unit⟩ := d
  cases family <;> revert unit <;> decide +kernel

theorem IsBitmapOrRegister.inRegisterArea (ha : IsBitmapOrRegister address) :
    Machine.InRegisterArea address :=
  ⟨UInt32.le_trans (by decide) ha.1, ha.2⟩

theorem statusRegister_ne_bitmap (d e : Device) : d.statusRegister ≠ e.bitmap := by
  obtain ⟨f, u⟩ := d
  obtain ⟨g, v⟩ := e
  revert u v
  cases f <;> cases g <;> decide +kernel

/-- Both halves of a terminal share the bitmap of their line. -/
theorem bitmap_of_isTerminal (hd : d.family.isTerminal = true) :
    d.bitmap = bitmapOf Cause.Line.terminal := by
  obtain ⟨family, unit⟩ := d
  cases family <;> first | rfl | cases hd

end Device

/-- The event raises the line of the terminals. -/
def Event.RaisesTerminals : Event → Prop
  | device line _ _ | interrupt line => line = 7
  | terminal _ _ _ => True
  | request _ _ _ _ _ | breakpoint | tlb | programTrap _ | timer => False

namespace Machine

variable {m m' m'' : Machine} {d e : Device} {u : Fin unitsPerLine} {a b value : Word}

/-! ## Machines with the same devices -/

/-- Two machines agree on the bitmaps and the registers of the devices. -/
def SameDevices (m m' : Machine) : Prop := ∀ a, Device.IsBitmapOrRegister a → m'.read a = m.read a

namespace SameDevices

theorem refl (m : Machine) : m.SameDevices m := fun _ _ => rfl

theorem trans (h : m.SameDevices m') (h' : m'.SameDevices m'') : m.SameDevices m'' :=
  fun a ha => (h' a ha).trans (h a ha)

theorem status (h : m.SameDevices m') (d : Device) :
    m'.read d.statusRegister = m.read d.statusRegister := h _ d.isBitmapOrRegister_statusRegister

theorem hasCompleted (h : m.SameDevices m') (d : Device) :
    m'.hasCompleted d = m.hasCompleted d := congrArg isCompleted (h.status d)

end SameDevices

theorem sameDevices_of_reads (h : ∀ a, a ≠ Bus.timer → m'.read a = m.read a) :
    m.SameDevices m' := fun a ha => h a fun heq => absurd (heq ▸ ha.1) (by decide)

/-- Storing a state leaves the devices alone if none of its words is a register. -/
theorem sameDevices_storeState (hb : ∀ i < stateWords, ¬ InRegisterArea (stateAddress b i))
    (m : Machine) (s : ProcessorState) : m.SameDevices (m.storeState b s) := by
  have hwords : ∀ n ≤ stateWords, m.SameDevices (m.storeWords b s n) := by
    intro n hn
    induction n with
    | zero => exact .refl m
    | succ n ih =>
      refine (ih (Nat.le_of_lt hn)).trans fun a ha => ?_
      rw [storeWords_succ, write_of_notInRegisterArea (hb n hn), read_set, if_neg]
      rintro rfl
      exact hb n hn ha.inRegisterArea
  exact hwords stateWords (Nat.le_refl _)

theorem InTrapArea.notInRegisterArea (ha : InTrapArea a) : ¬ InRegisterArea a := fun hreg =>
  absurd (UInt32.le_trans ha.1 hreg.2) (by decide)

theorem sameDevices_enterTrap (m : Machine) (vector : TrapVector) (code : ExceptionCode)
    (s : ProcessorState) : m.SameDevices (m.enterTrap vector code s).2 :=
  sameDevices_storeState (fun _ hi => (inTrapArea_oldArea vector hi).notInRegisterArea) m _

/-! ## Which halves wait for service -/

/-- The bit of a terminal is raised. -/
def Raised (m : Machine) (u : Fin unitsPerLine) : Prop :=
  m.read (bitmapOf Cause.Line.terminal) &&& unitBit u ≠ 0

/-- Half a terminal waits for service: it has completed, and the bit of its terminal is raised. -/
@[mk_iff]
structure Awaits (m : Machine) (d : Device) : Prop where
  terminal : d.family.isTerminal = true
  raised : m.Raised d.unit
  completed : m.hasCompleted d = true

/-- A half of a terminal has completed. -/
def Reports (m : Machine) (u : Fin unitsPerLine) : Prop :=
  m.hasCompleted ⟨.terminalTransmit, u⟩ = true ∨ m.hasCompleted ⟨.terminalReceive, u⟩ = true

/-- The bit of a terminal is raised though neither half has completed. -/
@[mk_iff]
structure Hangs (m : Machine) (u : Fin unitsPerLine) : Prop where
  raised : m.Raised u
  silent : ¬ m.Reports u

theorem reports_iff :
    m.Reports u ↔
      ∃ d : Device, d.family.isTerminal = true ∧ d.unit = u ∧ m.hasCompleted d = true := by
  constructor
  · rintro (htransmit | hreceive)
    · exact ⟨⟨.terminalTransmit, u⟩, rfl, rfl, htransmit⟩
    · exact ⟨⟨.terminalReceive, u⟩, rfl, rfl, hreceive⟩
  · rintro ⟨⟨family, unit⟩, hterminal, rfl, hcompleted⟩
    cases family with
    | terminalTransmit => exact .inl hcompleted
    | terminalReceive => exact .inr hcompleted
    | _ => cases hterminal

theorem Awaits.not_hangs (h : m.Awaits d) : ¬ m.Hangs d.unit := fun hhangs =>
  hhangs.silent (reports_iff.2 ⟨d, h.terminal, rfl, h.completed⟩)

/-- The half of a terminal that comes next: of the lowest terminal whose bit is raised, the
transmitter before the receiver. -/
structure IsNext (m : Machine) (d : Device) : Prop extends m.Awaits d where
  lowest : ∀ u < d.unit, ¬ m.Raised u
  first : d.family = .terminalReceive → m.hasCompleted ⟨.terminalTransmit, d.unit⟩ = false

/-- The lowest terminal whose bit is raised, if there is one, hangs. -/
def Blocked (m : Machine) : Prop := ∀ u, m.Raised u → ∃ v ≤ u, m.Hangs v

/-- Nobody who waits comes before the half that comes next. -/
theorem IsNext.before (h : m.IsNext d) (he : m.Awaits e) :
    d.unit < e.unit ∨ d.unit = e.unit ∧ (d.family = .terminalTransmit ∨ d = e) := by
  rcases Nat.lt_trichotomy d.unit e.unit with hlt | heq | hgt
  · exact .inl hlt
  · refine .inr ⟨Fin.ext heq, ?_⟩
    have hd := h.terminal
    have hterminal := he.terminal
    have hcompleted := he.completed
    have hfirst := h.first
    obtain ⟨f, u⟩ := d
    obtain ⟨g, v⟩ := e
    obtain rfl : u = v := Fin.ext heq
    cases f with
    | terminalTransmit => exact .inl rfl
    | terminalReceive =>
      cases g with
      | terminalTransmit => cases (hfirst rfl).symm.trans hcompleted
      | terminalReceive => exact .inr rfl
      | _ => cases hterminal
    | _ => cases hd
  · exact absurd he.raised (h.lowest _ hgt)

/-- Who waits for service on a line that is blocked waits behind a terminal that hangs. -/
theorem Blocked.exists_hangs (h : m.Blocked) (hd : m.Awaits d) : ∃ u < d.unit, m.Hangs u := by
  obtain ⟨v, hle, hv⟩ := h d.unit hd.raised
  refine ⟨v, Nat.lt_of_le_of_ne hle fun heq => hd.not_hangs ?_, hv⟩
  rwa [← Fin.ext heq]

namespace SameDevices

theorem raised (h : m.SameDevices m') (u : Fin unitsPerLine) : m'.Raised u ↔ m.Raised u := by
  unfold Raised
  rw [h (bitmapOf Cause.Line.terminal) (by decide)]

theorem awaits (h : m.SameDevices m') (d : Device) : m'.Awaits d ↔ m.Awaits d := by
  rw [awaits_iff, awaits_iff, h.raised, h.hasCompleted]

theorem hangs (h : m.SameDevices m') (u : Fin unitsPerLine) : m'.Hangs u ↔ m.Hangs u := by
  rw [hangs_iff, hangs_iff, h.raised, Reports, Reports, h.hasCompleted, h.hasCompleted]

end SameDevices

/-! ## Acknowledging -/

/-- The acknowledge command reaches the device. -/
theorem write_acknowledgeCommand (m : Machine) (d : Device) :
    m.write d.commandRegister acknowledgeCommand =
      (m.set d.commandRegister acknowledgeCommand).acknowledge d := by
  unfold write
  dsimp only
  rw [if_pos rfl, Device.ofCommand?_commandRegister]

theorem status_acknowledge (m : Machine) (d e : Device) :
    (m.write d.commandRegister acknowledgeCommand).read e.statusRegister =
      if d = e then readyStatus else m.read e.statusRegister := by
  have hset : ((m.set d.commandRegister acknowledgeCommand).set d.statusRegister readyStatus).read
      e.statusRegister = if d = e then readyStatus else m.read e.statusRegister := by
    rw [read_set, read_set, if_neg (Device.statusRegister_ne_commandRegister e d).symm]
    exact if_congr ⟨Device.statusRegister_injective, fun heq => heq ▸ rfl⟩ rfl rfl
  rw [write_acknowledgeCommand, acknowledge]
  split
  · exact hset
  · rw [lowerBit, read_set, if_neg (Device.statusRegister_ne_bitmap e d).symm, hset]

theorem hasCompleted_acknowledge (m : Machine) (d e : Device) :
    (m.write d.commandRegister acknowledgeCommand).hasCompleted e =
      (decide (d ≠ e) && m.hasCompleted e) := by
  unfold hasCompleted
  rw [status_acknowledge]
  by_cases heq : d = e
  · rw [if_pos heq, decide_eq_false (not_not_intro heq)]
    rfl
  · rw [if_neg heq, decide_eq_true heq, Bool.true_and]

/-- The bit of the terminal drops unless a half of it is left that has completed. -/
theorem raised_acknowledge (hd : d.family.isTerminal = true) (m : Machine)
    (u : Fin unitsPerLine) :
    (m.write d.commandRegister acknowledgeCommand).Raised u ↔
      m.Raised u ∧
        (u = d.unit → (m.write d.commandRegister acknowledgeCommand).Reports u) := by
  set m₁ := (m.set d.commandRegister acknowledgeCommand).set d.statusRegister readyStatus with hm₁
  have hbitmap := Device.bitmap_of_isTerminal hd
  have hread : m₁.read (bitmapOf Cause.Line.terminal) =
      m.read (bitmapOf Cause.Line.terminal) := by
    rw [← hbitmap, hm₁, read_set, read_set, if_neg (Device.statusRegister_ne_bitmap d d),
      if_neg (Device.bitmap_ne_commandRegister d d).symm]
  have hreports : (m₁.lowerBit d).Reports u ↔ m₁.Reports u := by
    have hcompleted : ∀ e, (m₁.lowerBit d).hasCompleted e = m₁.hasCompleted e := fun e => by
      unfold hasCompleted
      rw [lowerBit, read_set, if_neg (Device.statusRegister_ne_bitmap e d).symm]
    rw [Reports, hcompleted, hcompleted, Reports]
  rw [write_acknowledgeCommand, acknowledge, ← hm₁, hd, Bool.true_and]
  split
  · rename_i hleft
    replace hleft : m₁.Reports d.unit := Bool.or_eq_true_iff.1 hleft
    unfold Raised
    rw [hread, and_iff_left fun heq => heq ▸ hleft]
  · rename_i hleft
    replace hleft : ¬ m₁.Reports d.unit := mt Bool.or_eq_true_iff.2 hleft
    rw [hreports]
    unfold Raised
    rw [lowerBit, hbitmap, read_set, if_pos rfl, hread, Device.bit, and_unitBit_of_lowered]
    split
    · rename_i heq
      subst heq
      exact iff_of_false (absurd rfl) fun h => hleft (h.2 rfl)
    · rename_i hne
      exact (and_iff_left fun heq => absurd heq hne).symm

/-- Acknowledging a half that waits takes it away from those that wait. -/
theorem awaits_acknowledge (hd : m.Awaits d) (e : Device) :
    (m.write d.commandRegister acknowledgeCommand).Awaits e ↔ m.Awaits e ∧ e ≠ d := by
  rw [awaits_iff, awaits_iff, raised_acknowledge hd.terminal]
  have hcompleted := hasCompleted_acknowledge m d e
  constructor
  · rintro ⟨hterminal, ⟨hraised, -⟩, he⟩
    rw [hcompleted, Bool.and_eq_true, decide_eq_true_iff] at he
    exact ⟨⟨hterminal, hraised, he.2⟩, he.1.symm⟩
  · rintro ⟨⟨hterminal, hraised, he⟩, hne⟩
    replace he : (m.write d.commandRegister acknowledgeCommand).hasCompleted e = true := by
      rw [hcompleted, he, decide_eq_true hne.symm, Bool.true_and]
    exact ⟨hterminal, ⟨hraised, fun _ => reports_iff.2 ⟨e, hterminal, rfl, he⟩⟩, he⟩

/-- Acknowledging a half that waits makes no terminal hang, and none stop to. -/
theorem hangs_acknowledge (hd : m.Awaits d) (u : Fin unitsPerLine) :
    (m.write d.commandRegister acknowledgeCommand).Hangs u ↔ m.Hangs u := by
  rw [hangs_iff, raised_acknowledge hd.terminal]
  by_cases heq : u = d.unit
  · subst heq
    exact iff_of_false (fun h => h.2 (h.1.2 rfl)) hd.not_hangs
  · have hother : ∀ family, d ≠ ⟨family, u⟩ := fun family h => heq (h ▸ rfl)
    have hreports : (m.write d.commandRegister acknowledgeCommand).Reports u ↔ m.Reports u := by
      simp only [Reports, hasCompleted_acknowledge, ne_eq, hother, not_false_eq_true, decide_true,
        Bool.true_and]
    rw [hreports, hangs_iff, and_iff_left fun h => absurd h heq]

/-! ## Events -/

/-- An event that raises the line of the terminals interrupts on that line only. -/
theorem trap_terminals {event : Event} (hline : event.RaisesTerminals)
    (hrange : ¬ event.OutOfRange) (m : Machine) (running : Option ProcessorState) :
    ∃ m', m.trap event running = .ok (.interrupt, m') ∧
      (m'.loadState TrapVector.interrupt.oldArea).cause =
        Cause.withCode (Cause.withPending 0 .terminal) .interrupt := by
  have hcause : ∀ m : Machine, ((m.enterInterrupt .terminal { running.getD .zero with cause := 0 }
      ).2.loadState TrapVector.interrupt.oldArea).cause =
      Cause.withCode (Cause.withPending 0 .terminal) .interrupt := fun m =>
    congrArg ProcessorState.cause (loadState_enterTrap _ _ _ _)
  cases event with
  | device line unit status =>
    obtain rfl : line = 7 := hline
    obtain ⟨raised, hraise⟩ := raiseBit_eq (m.write (registersOf 7 unit.toNat) status) 7
      fun hunit => hrange (.inr (.inr hunit))
    refine ⟨_, ?_, hcause raised⟩
    rw [trap_device m 7 unit status running (by decide)]
    exact congrArg (· >>= _) hraise
  | terminal unit transmitted received =>
    unfold trap
    dsimp only
    generalize ((received.map _).getD _ : Machine) = written
    obtain ⟨raised, hraise⟩ := raiseBit_eq written Cause.Line.terminal hrange
    rw [hraise]
    exact ⟨_, rfl, hcause raised⟩
  | interrupt line =>
    obtain rfl : line = 7 := hline
    exact ⟨_, rfl, hcause m⟩
  | _ => exact hline.elim

/-- An interrupt by itself leaves the devices alone. -/
theorem sameDevices_of_interrupt {line : UInt8} {running : Option ProcessorState}
    {vector : TrapVector} (h : m.trap (.interrupt line) running = .ok (vector, m')) :
    m.SameDevices m' := by
  obtain ⟨l, -, h⟩ := exists_of_bind_eq_ok h
  cases h
  exact sameDevices_enterTrap m _ _ _

end Machine

end Nucleus
