import Nucleus.Proofs.Machine.StoredState

/-!
# Ordinary words

A word of memory is ordinary if it is no register of the bus or of a device and lies in no area of a
trap vector. Writing somewhere else leaves it alone, also when the write reaches a device, and so
does everything that the machine does by itself: no event changes an ordinary word
(`Machine.read_of_trap`).
-/

namespace Nucleus

namespace Machine

/-- An address among the registers of the bus and of the devices. -/
def IsRegister (address : Word) : Prop := 0x10000000 ≤ address ∧ address ≤ 0x1000ffff

/-- An address among the registers of the bus and of the devices that there are. Behind them lie
those of lines and units that only an event can name. -/
def InRegisterArea (address : Word) : Prop := 0x10000000 ≤ address ∧ address ≤ 0x100002cf

/-- An address in the old and new areas of the trap vectors. -/
def InTrapArea (address : Word) : Prop := 0x20000000 ≤ address ∧ address ≤ 0x2000045f

/-- An address that is neither a register nor in an area of a trap vector. -/
structure IsOrdinary (address : Word) : Prop where
  notRegister : ¬ IsRegister address
  notInTrapArea : ¬ InTrapArea address

instance (address : Word) : Decidable (IsRegister address) :=
  inferInstanceAs (Decidable (_ ∧ _))

instance (address : Word) : Decidable (InRegisterArea address) :=
  inferInstanceAs (Decidable (_ ∧ _))

instance (address : Word) : Decidable (InTrapArea address) :=
  inferInstanceAs (Decidable (_ ∧ _))

instance (address : Word) : Decidable (IsOrdinary address) :=
  decidable_of_iff (¬ IsRegister address ∧ ¬ InTrapArea address)
    ⟨fun h => ⟨h.1, h.2⟩, fun h => ⟨h.1, h.2⟩⟩

variable {m m' : Machine} {a b : Word}

theorem isRegister_iff : IsRegister a ↔ 0x10000000 ≤ a.toNat ∧ a.toNat ≤ 0x1000ffff := by
  simp only [IsRegister, UInt32.le_iff_toNat_le]
  exact Iff.rfl

/-! ## Registers -/

theorem InRegisterArea.isRegister (ha : InRegisterArea a) : IsRegister a :=
  ⟨ha.1, UInt32.le_trans ha.2 (by decide)⟩

theorem inRegisterArea_statusRegister (d : Device) : InRegisterArea d.statusRegister := by
  obtain ⟨family, unit⟩ := d
  cases family <;> revert unit <;> decide +kernel

theorem inRegisterArea_bitmap (d : Device) : InRegisterArea d.bitmap := by
  obtain ⟨family, unit⟩ := d
  cases family <;> revert unit <;> decide +kernel

/-- The registers of all lines and units that an event can name lie among the registers. -/
theorem isRegister_registersOf (line unit : UInt8) (offset : Word) (hoffset : offset.toNat < 16) :
    IsRegister (registersOf line.toNat unit.toNat + offset) := by
  have hline := line.toNat_lt
  have hunit := unit.toNat_lt
  rw [isRegister_iff, registersOf, firstRegister, UInt32.toNat_add, UInt32.toNat_ofNat']
  omega

theorem isRegister_bitmapOf {line : Nat} (hline : line < 256) : IsRegister (bitmapOf line) := by
  rw [isRegister_iff, bitmapOf, firstBitmap, UInt32.toNat_ofNat']
  omega

theorem isRegister_commandRegister (d : Device) : IsRegister d.commandRegister := by
  obtain ⟨family, unit⟩ := d
  cases family <;> revert unit <;> decide +kernel

theorem isRegister_clock : IsRegister Bus.clock := by decide

theorem isRegister_timer : IsRegister Bus.timer := by decide

/-! ## Areas of the trap vectors -/

theorem inTrapArea_oldArea (vector : TrapVector) {i : Nat} (hi : i < stateWords) :
    InTrapArea (stateAddress vector.oldArea i) := by
  revert i
  cases vector <;> decide +kernel

theorem inTrapArea_newArea (vector : TrapVector) {i : Nat} (hi : i < stateWords) :
    InTrapArea (stateAddress vector.newArea i) := by
  revert i
  cases vector <;> decide +kernel

theorem IsOrdinary.stateAddress_oldArea_ne (ha : IsOrdinary a) (vector : TrapVector) :
    ∀ i < stateWords, stateAddress vector.oldArea i ≠ a := by
  intro i hi heq
  apply ha.notInTrapArea
  rw [← heq]
  exact inTrapArea_oldArea vector hi

theorem IsOrdinary.stateAddress_newArea_ne (ha : IsOrdinary a) (vector : TrapVector) :
    ∀ i < stateWords, stateAddress vector.newArea i ≠ a := by
  intro i hi heq
  apply ha.notInTrapArea
  rw [← heq]
  exact inTrapArea_newArea vector hi

/-! ## Writing -/

theorem ne_of_isRegister (ha : ¬ IsRegister a) (hb : IsRegister b) : b ≠ a := by
  rintro rfl
  exact ha hb

theorem ne_of_inRegisterArea (ha : ¬ InRegisterArea a) (hb : InRegisterArea b) : b ≠ a := by
  rintro rfl
  exact ha hb

/-- An acknowledged device changes registers only. -/
theorem read_acknowledge (ha : ¬ InRegisterArea a) (m : Machine) (d : Device) :
    (m.acknowledge d).read a = m.read a := by
  have hstatus := ne_of_inRegisterArea ha (inRegisterArea_statusRegister d)
  have hbitmap := ne_of_inRegisterArea ha (inRegisterArea_bitmap d)
  unfold acknowledge
  dsimp only
  split
  · rw [read_set, if_neg hstatus]
  · rw [lowerBit, read_set, if_neg hbitmap, read_set, if_neg hstatus]

theorem read_write (ha : ¬ InRegisterArea a) (m : Machine) (b value : Word) :
    (m.write b value).read a = if b = a then value else m.read a := by
  unfold write
  dsimp only
  split
  · split
    · rw [read_acknowledge ha, read_set]
    · rw [read_set]
  · rw [read_set]

/-- No command register lies outside the register area. -/
theorem ofCommand?_of_notInRegisterArea (hb : ¬ InRegisterArea b) :
    Device.ofCommand? b = none := by
  apply Device.ofCommand?_eq_none
  by_cases hlow : 0x10000000 ≤ b
  · have hhigh : 0x100002cf < b := UInt32.not_le.1 fun hle => hb ⟨hlow, hle⟩
    rw [UInt32.lt_iff_toNat_lt] at hhigh
    exact .inr (UInt32.le_iff_toNat_le.2 hhigh)
  · exact .inl (UInt32.lt_trans (UInt32.not_le.1 hlow) (by decide))

/-- A write outside the register area changes one word. -/
theorem write_of_notInRegisterArea (hb : ¬ InRegisterArea b) (m : Machine) (value : Word) :
    m.write b value = m.set b value :=
  write_of_plain (ofCommand?_of_notInRegisterArea hb)

/-- A write changes nothing but memory. -/
theorem write_eq (m : Machine) (address value : Word) :
    m.write address value = { m with memory := (m.write address value).memory } := by
  unfold write
  dsimp only
  split
  · split
    · unfold acknowledge
      dsimp only
      split
      · rfl
      · rfl
    · rfl
  · rfl

/-- A word holds what was written to it, also the command register of a device that the write has
reached. -/
theorem read_write_self (m : Machine) (b value : Word) : (m.write b value).read b = value := by
  have hset : (m.set b value).read b = value := by rw [read_set, if_pos rfl]
  unfold write
  dsimp only
  split
  · cases hcommand : Device.ofCommand? b with
    | none => exact hset
    | some d =>
      have hb : d.commandRegister = b := by
        unfold Device.ofCommand? at hcommand
        exact of_decide_eq_true (List.find?_some hcommand :)
      have hstatus := hb ▸ Device.statusRegister_ne_commandRegister d d
      have hbitmap := hb ▸ Device.bitmap_ne_commandRegister d d
      unfold acknowledge
      dsimp only
      split
      · rw [read_set, if_neg hstatus, hset]
      · rw [lowerBit, read_set, if_neg hbitmap, read_set, if_neg hstatus, hset]
  · exact hset

/-- A write to a register leaves the words that are no registers alone. -/
theorem read_write_of_isRegister (ha : ¬ IsRegister a) (hb : IsRegister b) (m : Machine)
    (value : Word) : (m.write b value).read a = m.read a := by
  rw [read_write (mt InRegisterArea.isRegister ha), if_neg (ne_of_isRegister ha hb)]

/-- Storing a state leaves alone the words that are neither registers nor its own. -/
theorem read_storeState (ha : ¬ IsRegister a) (m : Machine) (s : ProcessorState)
    (hne : ∀ i < stateWords, stateAddress b i ≠ a) : (m.storeState b s).read a = m.read a := by
  have hwords : ∀ n ≤ stateWords, (m.storeWords b s n).read a = m.read a := by
    intro n hn
    induction n with
    | zero => rfl
    | succ n ih =>
      rw [storeWords_succ, read_write (mt InRegisterArea.isRegister ha), if_neg (hne n hn)]
      exact ih (Nat.le_of_lt hn)
  exact hwords stateWords (Nat.le_refl _)

/-- Storing a state changes nothing but memory. -/
theorem storeState_eq (m : Machine) (address : Word) (s : ProcessorState) :
    m.storeState address s = { m with memory := (m.storeState address s).memory } := by
  have hwords : ∀ n, m.storeWords address s n =
      { m with memory := (m.storeWords address s n).memory } := by
    intro n
    induction n with
    | zero => rfl
    | succ n ih => rw [storeWords_succ, write_eq, ih]
  exact hwords stateWords

/-- A state that is stored away from the command registers changes no word but its own. -/
theorem read_storeState_of_plain {address : Word} (hplain : Plain address) (m : Machine)
    (s : ProcessorState) (hne : ∀ i < stateWords, stateAddress address i ≠ a) :
    (m.storeState address s).read a = m.read a := by
  have hwords : ∀ n ≤ stateWords, (m.storeWords address s n).read a = m.read a := by
    intro n hn
    induction n with
    | zero => rfl
    | succ n ih =>
      rw [storeWords_succ, write_of_plain (hplain n hn), read_set, if_neg (hne n hn)]
      exact ih (Nat.le_of_lt hn)
  exact hwords stateWords (Nat.le_refl _)

/-- Where the words are the same, the same state is stored. -/
theorem loadState_congr {address : Word} (h : ∀ i < stateWords,
    m'.read (stateAddress address i) = m.read (stateAddress address i)) :
    m'.loadState address = m.loadState address := by
  have hwords : (Table.ofFn fun i : Fin stateWords => m'.read (stateAddress address i)) =
      Table.ofFn fun i => m.read (stateAddress address i) := by
    refine Table.ext fun i => ?_
    rw [Table.get_ofFn, Table.get_ofFn]
    exact h i i.isLt
  unfold loadState
  rw [hwords]

/-! ## Events -/

theorem read_advance (ha : ¬ IsRegister a) (m : Machine) (micros : Word) :
    (m.advance micros).read a = m.read a :=
  read_write_of_isRegister ha isRegister_clock m _

theorem read_enterTrap (ha : IsOrdinary a) (m : Machine) (vector : TrapVector)
    (code : ExceptionCode) (s : ProcessorState) :
    (m.enterTrap vector code s).2.read a = m.read a :=
  read_storeState ha.notRegister m _ (ha.stateAddress_oldArea_ne vector)

theorem read_of_raiseBit (ha : ¬ IsRegister a) {line : Nat} {unit : UInt8} (hline : line < 256)
    (h : m.raiseBit line unit = .ok m') : m'.read a = m.read a := by
  unfold raiseBit at h
  split at h
  · cases h
    exact read_write_of_isRegister ha (isRegister_bitmapOf hline) m _
  · cases h

/-- The halves of a terminal are written before its bit is raised. -/
theorem read_write_terminal (ha : ¬ IsRegister a) (m : Machine) (unit : UInt8) (offset : Word)
    (hoffset : offset.toNat < 16) (status : Option Word) :
    ((status.map (m.write (registersOf Cause.Line.terminal unit.toNat + offset))).getD m).read a =
      m.read a := by
  cases status with
  | none => rfl
  | some value =>
    exact read_write_of_isRegister ha (isRegister_registersOf 7 unit offset hoffset) m value

theorem exists_of_bind_eq_ok {α β : Type} {x : Except Abort α} {f : α → Except Abort β} {result : β}
    (h : (x >>= f) = .ok result) : ∃ value, x = .ok value ∧ f value = .ok result := by
  cases x with
  | error cause => cases h
  | ok value => exact ⟨value, rfl, h⟩

theorem isRegister_of_registersAt {line unit : UInt8} (h : registersAt line unit = .ok b) :
    IsRegister b := by
  unfold registersAt at h
  split at h
  · cases h
  · cases h
    have hbase := isRegister_registersOf line unit 0 (by decide)
    rwa [UInt32.add_zero] at hbase

/-- No event changes an ordinary word. -/
theorem read_of_trap (ha : IsOrdinary a) {event : Event} {running : Option ProcessorState}
    {vector : TrapVector} (h : m.trap event running = .ok (vector, m')) : m'.read a = m.read a := by
  have hreg := ha.notRegister
  unfold trap at h
  cases event with
  | request | breakpoint | tlb | programTrap =>
    cases h
    exact read_enterTrap ha m _ _ _
  | timer =>
    cases h
    exact (read_enterTrap ha _ _ _ _).trans (read_advance hreg m _)
  | device line unit status =>
    obtain ⟨base, hbase, h⟩ := exists_of_bind_eq_ok h
    obtain ⟨raised, hraise, h⟩ := exists_of_bind_eq_ok h
    obtain ⟨l, -, h⟩ := exists_of_bind_eq_ok h
    cases h
    calc (raised.enterInterrupt l _).2.read a = raised.read a := read_enterTrap ha _ _ _ _
      _ = (m.write base status).read a := read_of_raiseBit hreg line.toNat_lt hraise
      _ = m.read a := read_write_of_isRegister hreg (isRegister_of_registersAt hbase) m status
  | terminal unit transmitted received =>
    obtain ⟨raised, hraise, h⟩ := exists_of_bind_eq_ok h
    cases h
    have htransmit := read_write_terminal hreg m unit 0x8 (by decide) transmitted
    have hreceive := fun m' => read_write_terminal hreg m' unit 0 (by decide) received
    simp only [UInt32.add_zero] at hreceive
    calc (raised.enterInterrupt Cause.Line.terminal _).2.read a = raised.read a :=
          read_enterTrap ha _ _ _ _
      _ = _ := read_of_raiseBit hreg (by decide) hraise
      _ = _ := hreceive _
      _ = m.read a := htransmit
  | interrupt line =>
    obtain ⟨l, -, h⟩ := exists_of_bind_eq_ok h
    cases h
    exact read_enterTrap ha m _ _ _

end Machine

end Nucleus
