import Nucleus.Machine.Basic

/-!
# Stored states

Only the command registers of devices react to a write. So a state that is stored away from them is
read back as it was, and no other word changes. The areas of the trap vectors lie in installed
memory, far from the devices.
-/

namespace Nucleus

namespace Device

variable {d e : Device}

/-- The command registers lie among the device registers. -/
theorem commandRegister_range (d : Device) :
    0x10000050 ≤ d.commandRegister ∧ d.commandRegister < 0x100002d0 := by
  obtain ⟨family, unit⟩ := d
  cases family <;> revert unit <;> decide +kernel

theorem ofCommand?_eq_none {address : Word}
    (h : address < 0x10000050 ∨ 0x100002d0 ≤ address) : ofCommand? address = none := by
  simp only [ofCommand?, List.find?_eq_none]
  intro d _
  rw [decide_eq_true_iff]
  rintro rfl
  obtain ⟨hlow, hhigh⟩ := d.commandRegister_range
  rcases h with h | h
  · exact UInt32.lt_irrefl _ (UInt32.lt_of_lt_of_le h hlow)
  · exact UInt32.lt_irrefl _ (UInt32.lt_of_lt_of_le hhigh h)

/-- Nothing that a device reports stands in a command register. -/
theorem statusRegister_ne_commandRegister (d e : Device) :
    d.statusRegister ≠ e.commandRegister := by
  obtain ⟨f, u⟩ := d
  obtain ⟨g, v⟩ := e
  revert u v
  cases f <;> cases g <;> decide +kernel

theorem bitmap_ne_commandRegister (d e : Device) : d.bitmap ≠ e.commandRegister := by
  obtain ⟨f, u⟩ := d
  obtain ⟨g, v⟩ := e
  revert u v
  cases f <;> cases g <;> decide +kernel

theorem statusRegister_injective (h : d.statusRegister = e.statusRegister) : d = e := by
  obtain ⟨f, u⟩ := d
  obtain ⟨g, v⟩ := e
  revert u v
  cases f <;> cases g <;> decide +kernel

/-- A command register belongs to one device. -/
theorem ofCommand?_commandRegister (d : Device) : ofCommand? d.commandRegister = some d := by
  cases hfind : ofCommand? d.commandRegister with
  | none =>
    have hnone := List.find?_eq_none.1 hfind d (mem_all d)
    exact absurd (decide_eq_true rfl) hnone
  | some e =>
    have hcommand : e.commandRegister = d.commandRegister :=
      of_decide_eq_true (List.find?_some hfind :)
    rw [statusRegister_injective (UInt32.add_left_inj 0x4 |>.1 hcommand)]

end Device

namespace Machine

variable {m : Machine} {address other : Word} {value : Word} {s : ProcessorState} {n i : Nat}

theorem read_set (m : Machine) (address value other : Word) :
    (m.set address value).read other = if address = other then value else m.read other :=
  Memory.read_write m.memory address value other

/-- A write to anything but a command register changes one word. -/
theorem write_of_plain (h : Device.ofCommand? address = none) :
    m.write address value = m.set address value := by
  unfold write
  dsimp only
  rw [h]
  exact ite_self _

/-! ## The words of a stored state -/

theorem stateAddress_injective {j : Nat} (hi : i < stateWords) (hj : j < stateWords)
    (h : stateAddress address i = stateAddress address j) : i = j := by
  unfold stateAddress at h
  have hoffset : ∀ {l : Nat}, l < stateWords → (UInt32.ofNat (4 * l)).toNat = 4 * l := by
    intro l hl
    rw [UInt32.toNat_ofNat']
    exact Nat.mod_eq_of_lt (Nat.lt_trans (Nat.mul_lt_mul_of_pos_left hl (by decide)) (by decide))
  have heq := congrArg UInt32.toNat (UInt32.add_right_inj address |>.1 h)
  rw [hoffset hi, hoffset hj] at heq
  exact Nat.eq_of_mul_eq_mul_left (by decide) heq

/-- None of the words of a state stored at an address is a command register. -/
def Plain (address : Word) : Prop :=
  ∀ i < stateWords, Device.ofCommand? (stateAddress address i) = none

/-- The first words of a state, stored one after the other. -/
def storeWords (m : Machine) (address : Word) (s : ProcessorState) (n : Nat) : Machine :=
  (List.range n).foldl (fun m i => m.write (stateAddress address i) (s.word i)) m

theorem storeWords_succ (m : Machine) (address : Word) (s : ProcessorState) (n : Nat) :
    m.storeWords address s (n + 1) =
      (m.storeWords address s n).write (stateAddress address n) (s.word n) := by
  simp only [storeWords, List.range_succ, List.foldl_append]
  rfl

theorem read_storeWords_of_lt (hplain : Plain address) (hn : n ≤ stateWords) (hi : i < n) :
    (m.storeWords address s n).read (stateAddress address i) = s.word i := by
  induction n with
  | zero => exact absurd hi (Nat.not_lt_zero i)
  | succ n ih =>
    rw [storeWords_succ, write_of_plain (hplain n hn), read_set]
    by_cases heq : n = i
    · rw [heq, if_pos rfl]
    · have hlt : i < n := Nat.lt_of_le_of_ne (Nat.le_of_lt_succ hi) (Ne.symm heq)
      rw [if_neg fun h => heq (stateAddress_injective hn (Nat.lt_trans hlt hn) h)]
      exact ih (Nat.le_of_lt hn) hlt

/-- A state that is stored away from the command registers is read back as it was. -/
theorem loadState_storeState (hplain : Plain address) (m : Machine) (s : ProcessorState) :
    (m.storeState address s).loadState address = s := by
  have hwords : (Table.ofFn fun i : Fin stateWords =>
      (m.storeState address s).read (stateAddress address i)) = s.toWords := by
    refine Table.ext fun i => ?_
    rw [Table.get_ofFn]
    simp only [ProcessorState.toWords, Table.get_ofFn]
    exact read_storeWords_of_lt hplain (Nat.le_refl _) i.isLt
  simp only [loadState, hwords, ProcessorState.ofWords_toWords]

theorem readState_eq_ok {m : Machine} {address : Word} {s : ProcessorState}
    (h : m.readState address = .ok s) : s = m.loadState address := by
  unfold readState at h
  split at h
  · exact (Except.ok.inj h).symm
  · cases h

theorem writeState_eq_ok {m m' : Machine} {address : Word} {s : ProcessorState}
    (h : m.writeState address s = .ok m') : m' = m.storeState address s := by
  unfold writeState at h
  split at h
  · exact (Except.ok.inj h).symm
  · cases h

/-- The old areas of the trap vectors are in memory. -/
theorem plain_oldArea (vector : TrapVector) : Plain vector.oldArea := by
  intro i hi
  refine Device.ofCommand?_eq_none (.inr ?_)
  revert i
  cases vector <;> decide +kernel

end Machine

end Nucleus
