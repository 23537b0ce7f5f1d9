import Nucleus.Proofs.Machine.OrdinaryWord

/-!
# Areas for states

A state is stored in thirty-five words, one after the other from any address. If they end before the
end of the address space and none of them is a device register, the words are an area
(`Machine.IsArea`): a state stored there is read back as it was and no other word changes, to store
what is read changes nothing, and it does not matter in which order two areas that do not meet are
stored to (`Machine.RoundTrips`).
-/

namespace Nucleus

namespace Machine

/-- An address among the registers of the devices. -/
def IsDeviceRegister (address : Word) : Prop := 0x10000050 ≤ address ∧ address ≤ 0x100002cf

/-- The address `a` belongs to a word of a state stored at `address`. -/
def Occupies (address a : Word) : Prop := ∃ i < stateWords, a.toNat = address.toNat + 4 * i

/-- A state fits in at `address`, and none of its words is a register of a device. -/
structure IsArea (address : Word) : Prop where
  fits : address ≤ 0xffffff77
  clear : ∀ a, Occupies address a → ¬ IsDeviceRegister a

/-- Two areas have no word in common. -/
def Apart (address other : Word) : Prop := ∀ a, Occupies address a → ¬ Occupies other a

variable {m m' m'' : Machine} {address other a : Word} {i : Nat}

theorem Apart.symm (h : Apart address other) : Apart other address := fun a ha ha' => h a ha' ha

/-! ## The words of an area -/

/-- No address of a state that fits in wraps. -/
theorem toNat_stateAddress (hfits : address ≤ 0xffffff77) (hi : i < stateWords) :
    (stateAddress address i).toNat = address.toNat + 4 * i := by
  have hfits : address.toNat ≤ 0xffffff77 := UInt32.le_iff_toNat_le.1 hfits
  have hi : i < 35 := hi
  rw [stateAddress, UInt32.toNat_add, UInt32.toNat_ofNat']
  omega

theorem occupies_iff (hfits : address ≤ 0xffffff77) :
    Occupies address a ↔ ∃ i < stateWords, stateAddress address i = a := by
  constructor
  · rintro ⟨i, hi, ha⟩
    exact ⟨i, hi, UInt32.toNat_inj.1 ((toNat_stateAddress hfits hi).trans ha.symm)⟩
  · rintro ⟨i, hi, rfl⟩
    exact ⟨i, hi, toNat_stateAddress hfits hi⟩

instance (address : Word) : Decidable (IsDeviceRegister address) :=
  inferInstanceAs (Decidable (_ ∧ _))

theorem isArea_iff : IsArea address ↔
    address ≤ 0xffffff77 ∧ ∀ i < stateWords, ¬ IsDeviceRegister (stateAddress address i) := by
  constructor
  · intro harea
    exact ⟨harea.fits, fun i hi => harea.clear _ ((occupies_iff harea.fits).2 ⟨i, hi, rfl⟩)⟩
  · rintro ⟨hfits, hclear⟩
    refine ⟨hfits, fun a ha => ?_⟩
    obtain ⟨i, hi, rfl⟩ := (occupies_iff hfits).1 ha
    exact hclear i hi

instance (address : Word) : Decidable (IsArea address) := decidable_of_iff' _ isArea_iff

/-- Areas are apart if one ends before the other begins. -/
theorem apart_of_lt (h : address.toNat + 4 * 34 < other.toNat) : Apart address other := by
  rintro a ⟨i, hi, ha⟩ ⟨j, hj, ha'⟩
  have hi : i < 35 := hi
  omega

namespace IsArea

theorem occupies_stateAddress (harea : IsArea address) (hi : i < stateWords) :
    Occupies address (stateAddress address i) :=
  (occupies_iff harea.fits).2 ⟨i, hi, rfl⟩

theorem plain (harea : IsArea address) : Plain address := by
  intro i hi
  apply Device.ofCommand?_eq_none
  by_cases hlow : 0x10000050 ≤ stateAddress address i
  · have hhigh : ¬ stateAddress address i ≤ 0x100002cf := fun hle =>
      harea.clear _ (harea.occupies_stateAddress hi) ⟨hlow, hle⟩
    exact .inr (UInt32.le_iff_toNat_le.2 (UInt32.lt_iff_toNat_lt.1 (UInt32.not_le.1 hhigh)))
  · exact .inl (UInt32.not_le.1 hlow)

/-- The words of an area hold what was stored last. -/
theorem read_storeState (harea : IsArea address) (hi : i < stateWords) (m : Machine)
    (s : ProcessorState) : (m.storeState address s).read (stateAddress address i) = s.word i :=
  read_storeWords_of_lt harea.plain (Nat.le_refl _) hi

/-- Storing a state changes no word but those of its area. -/
theorem read_storeState_of_not_occupies (harea : IsArea address) (ha : ¬ Occupies address a)
    (m : Machine) (s : ProcessorState) : (m.storeState address s).read a = m.read a :=
  read_storeState_of_plain harea.plain m s fun _ hi heq =>
    ha (heq ▸ harea.occupies_stateAddress hi)

/-! ## Storing and loading -/

/-- What an area holds does not depend on what was there before. -/
theorem read_storeState_congr (harea : IsArea address) (ha : Occupies address a) (m m' : Machine)
    (s : ProcessorState) : (m.storeState address s).read a = (m'.storeState address s).read a := by
  obtain ⟨i, hi, rfl⟩ := (occupies_iff harea.fits).1 ha
  rw [harea.read_storeState hi, harea.read_storeState hi]

end IsArea

theorem word_loadState (m : Machine) (address : Word) (hi : i < stateWords) :
    (m.loadState address).word i = m.read (stateAddress address i) := by
  have hword := ProcessorState.word_ofWords
    (Table.ofFn fun j => m.read (stateAddress address j)) ⟨i, hi⟩
  rwa [Table.get_ofFn] at hword

/-- Two machines differ in memory at most. -/
def SameBesideMemory (m m' : Machine) : Prop := ∃ memory, m' = { m with memory }

namespace SameBesideMemory

theorem symm (h : m.SameBesideMemory m') : m'.SameBesideMemory m := by
  obtain ⟨memory, rfl⟩ := h
  exact ⟨m.memory, rfl⟩

theorem trans (h : m.SameBesideMemory m') (h' : m'.SameBesideMemory m'') :
    m.SameBesideMemory m'' := by
  obtain ⟨memory, rfl⟩ := h
  obtain ⟨memory', rfl⟩ := h'
  exact ⟨memory', rfl⟩

theorem storeState (h : m.SameBesideMemory m') (address : Word) (s : ProcessorState) :
    m.SameBesideMemory (m'.storeState address s) :=
  h.trans ⟨_, storeState_eq m' address s⟩

/-- If they also read the same they are equal. -/
theorem eq_of_reads (h : m.SameBesideMemory m') (hread : ∀ a, m'.read a = m.read a) : m' = m := by
  obtain ⟨memory, rfl⟩ := h
  have hmemory : memory = m.memory := Memory.ext hread
  rw [hmemory]

end SameBesideMemory

theorem sameBesideMemory_storeState (m : Machine) (address : Word) (s : ProcessorState) :
    m.SameBesideMemory (m.storeState address s) :=
  ⟨_, storeState_eq m address s⟩

namespace IsArea

/-- To store what is there changes nothing. -/
theorem storeState_loadState (harea : IsArea address) (m : Machine) :
    m.storeState address (m.loadState address) = m := by
  refine (sameBesideMemory_storeState m address _).eq_of_reads fun a => ?_
  by_cases ha : Occupies address a
  · obtain ⟨i, hi, rfl⟩ := (occupies_iff harea.fits).1 ha
    rw [harea.read_storeState hi, word_loadState m address hi]
  · exact harea.read_storeState_of_not_occupies ha m _

/-- A word of the first of two areas does not show which was stored to first. -/
theorem read_storeState_comm (harea : IsArea address) (hother : IsArea other)
    (hapart : Apart address other) (ha : Occupies address a) (m : Machine) (s t : ProcessorState) :
    ((m.storeState address s).storeState other t).read a =
      ((m.storeState other t).storeState address s).read a := by
  rw [hother.read_storeState_of_not_occupies (hapart a ha)]
  exact harea.read_storeState_congr ha _ _ s

/-- It does not matter which of two areas that do not meet is stored to first. -/
theorem storeState_comm (harea : IsArea address) (hother : IsArea other)
    (hapart : Apart address other) (m : Machine) (s t : ProcessorState) :
    (m.storeState address s).storeState other t = (m.storeState other t).storeState address s := by
  have hleft := (sameBesideMemory_storeState m address s).storeState other t
  have hright := (sameBesideMemory_storeState m other t).storeState address s
  refine (hright.symm.trans hleft).eq_of_reads fun a => ?_
  by_cases ha : Occupies address a
  · exact harea.read_storeState_comm hother hapart ha m s t
  by_cases ha' : Occupies other a
  · exact (hother.read_storeState_comm harea hapart.symm ha' m t s).symm
  · rw [hother.read_storeState_of_not_occupies ha', harea.read_storeState_of_not_occupies ha,
      harea.read_storeState_of_not_occupies ha, hother.read_storeState_of_not_occupies ha']

theorem readState_eq (harea : IsArea address) (m : Machine) :
    m.readState address = .ok (m.loadState address) :=
  if_pos (decide_eq_true harea.fits)

theorem writeState_eq (harea : IsArea address) (m : Machine) (s : ProcessorState) :
    m.writeState address s = .ok (m.storeState address s) :=
  if_pos (decide_eq_true harea.fits)

end IsArea

/-- Storing to an area and loading from it. -/
structure RoundTrips (m : Machine) (address : Word) : Prop where
  /-- A state is read back as it was stored, and no other word has changed. -/
  stored : ∀ s, ∃ m', m.writeState address s = .ok m' ∧ m'.readState address = .ok s ∧
    ∀ a, ¬ Occupies address a → m'.read a = m.read a
  /-- Storing the state that is there leaves the machine as it is. -/
  restored : ∃ s, m.readState address = .ok s ∧ m.writeState address s = .ok m
  /-- Storing to another area, before or after, comes to the same. -/
  commutes : ∀ other, IsArea other → Apart address other → ∀ s t, ∃ m',
    (m.writeState address s >>= fun m₁ => m₁.writeState other t) = .ok m' ∧
    (m.writeState other t >>= fun m₁ => m₁.writeState address s) = .ok m'

theorem IsArea.roundTrips (harea : IsArea address) (m : Machine) : m.RoundTrips address where
  stored s := by
    refine ⟨_, harea.writeState_eq m s, ?_, fun a ha => ?_⟩
    · rw [harea.readState_eq, loadState_storeState harea.plain]
    · exact harea.read_storeState_of_not_occupies ha m s
  restored := by
    refine ⟨_, harea.readState_eq m, ?_⟩
    rw [harea.writeState_eq, harea.storeState_loadState]
  commutes other hother hapart s t := by
    refine ⟨(m.storeState address s).storeState other t, ?_, ?_⟩
    · rw [harea.writeState_eq]
      exact hother.writeState_eq _ t
    · rw [hother.writeState_eq, harea.storeState_comm hother hapart]
      exact harea.writeState_eq _ s

end Machine

/-- The layout of a state loses nothing in either direction, and nothing is lost or touched on the
way to memory and back, wherever a state fits in and meets no device register. -/
theorem stateLayout_roundTrips :
    (∀ s : ProcessorState, .ofWords s.toWords = s) ∧
    (∀ words : Table stateWords Word, (ProcessorState.ofWords words).toWords = words) ∧
    ∀ (m : Machine) (address : Word), Machine.IsArea address → m.RoundTrips address :=
  ⟨ProcessorState.ofWords_toWords, ProcessorState.toWords_ofWords, fun m _ harea =>
    harea.roundTrips m⟩

/-- The areas right before and right behind the device registers: the first takes in the registers
of the bus and the bitmaps, and no word of a state full of acknowledge commands reaches a device. -/
theorem stateLayout_roundTrips_neighbours :
    let s := ProcessorState.ofWords (Table.fill stateWords acknowledgeCommand)
    Machine.IsArea 0x0fffffc4 ∧ Machine.IsArea 0x100002d0 ∧ Machine.Apart 0x0fffffc4 0x100002d0 ∧
      ¬ Machine.IsArea 0x0fffffc8 ∧ ¬ Machine.IsArea 0x100002cf ∧
      ∃ m, (Machine.new.writeState 0x0fffffc4 s >>= fun m => m.writeState 0x100002d0 s) = .ok m ∧
        (Machine.new.writeState 0x100002d0 s >>= fun m => m.writeState 0x0fffffc4 s) = .ok m := by
  have hbefore : Machine.IsArea 0x0fffffc4 := by decide +kernel
  have hbehind : Machine.IsArea 0x100002d0 := by decide +kernel
  have hapart : Machine.Apart 0x0fffffc4 0x100002d0 := Machine.apart_of_lt (by decide)
  exact ⟨hbefore, hbehind, hapart, by decide +kernel, by decide +kernel,
    (stateLayout_roundTrips.2.2 .new _ hbefore).commutes _ hbehind hapart _ _⟩

end Nucleus
