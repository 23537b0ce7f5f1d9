import Nucleus.Process.Table
import Mathlib.Data.List.Nodup
import Mathlib.Data.List.Perm.Subperm

/-!
# The process table

The free list of a valid table holds the slots that are not in use, each once. So a slot in use can
always be released, and `allocate` hands out a slot that nobody uses. `countSlots` counts slots by a
property; `countSlots_update` says how the number changes with the property of one slot.
-/

namespace Nucleus

/-- The number of slots with a property. -/
def countSlots (p : Slot → Bool) : Nat := (List.finRange maxProcesses).countP p

section CountSlots

variable {p q : Slot → Bool}

theorem countSlots_congr (h : ∀ i, p i = q i) : countSlots p = countSlots q := by
  rw [funext h]

theorem countSlots_eq_add (h : Slot) :
    countSlots p = ((List.finRange maxProcesses).erase h).countP p + (p h).toNat := by
  have hperm := List.perm_cons_erase (List.mem_finRange h)
  simp only [countSlots, hperm.countP_eq, List.countP_cons]
  cases p h <;> rfl

/-- If a property changes at one slot only, the number of slots changes by what that slot
contributes. -/
theorem countSlots_update {h : Slot} (hne : ∀ i, i ≠ h → q i = p i) :
    countSlots q + (p h).toNat = countSlots p + (q h).toNat := by
  have hrest : ((List.finRange maxProcesses).erase h).countP q =
      ((List.finRange maxProcesses).erase h).countP p := by
    refine List.countP_congr fun i hi => ?_
    have hi : i ≠ h := ((List.nodup_finRange _).mem_erase_iff.1 hi).1
    rw [hne i hi]
  rw [countSlots_eq_add h, countSlots_eq_add (p := p) h, hrest]
  exact Nat.add_right_comm _ _ _

theorem countSlots_lt_of_imp {h : Slot} (himp : ∀ i, p i = true → q i = true)
    (hp : p h = false) (hq : q h = true) : countSlots p < countSlots q := by
  have hrest : ((List.finRange maxProcesses).erase h).countP p ≤
      ((List.finRange maxProcesses).erase h).countP q :=
    List.countP_mono_left fun i _ => himp i
  rw [countSlots_eq_add h, countSlots_eq_add (p := q) h, hp, hq]
  exact Nat.lt_succ_of_le hrest

theorem countSlots_le : countSlots p ≤ maxProcesses := by
  have h := List.countP_le_length (p := p) (l := List.finRange maxProcesses)
  rwa [List.length_finRange] at h

theorem countSlots_lt {h : Slot} (hp : p h = false) : countSlots p < maxProcesses :=
  Nat.lt_of_lt_of_le (countSlots_lt_of_imp (q := fun _ => true) (fun _ _ => rfl) hp rfl)
    countSlots_le

theorem countSlots_eq_zero_iff : countSlots p = 0 ↔ ∀ h, p h = false := by
  simp only [countSlots, List.countP_eq_zero]
  constructor
  · intro h i
    exact Bool.eq_false_iff.2 (h i (List.mem_finRange i))
  · intro h i _
    exact Bool.eq_false_iff.1 (h i)

theorem countSlots_eq_maxProcesses_iff :
    countSlots p = maxProcesses ↔ ∀ h, p h = true := by
  constructor
  · intro hcount h
    cases hp : p h with
    | true => rfl
    | false => exact absurd hcount (Nat.ne_of_lt (countSlots_lt hp))
  · intro hp
    rw [countSlots, List.countP_eq_length.2 fun h _ => hp h, List.length_finRange]

theorem countSlots_pos_iff : 0 < countSlots p ↔ ∃ h, p h = true := by
  simp only [countSlots, List.countP_pos_iff]
  constructor
  · rintro ⟨h, -, hp⟩
    exact ⟨h, hp⟩
  · rintro ⟨h, hp⟩
    exact ⟨h, List.mem_finRange h, hp⟩

end CountSlots

namespace ProcessTable

variable {t u : ProcessTable} {h i : Slot}

theorem usedCount_eq (t : ProcessTable) : t.usedCount = countSlots t.isUsed := by
  simp only [usedCount, used, countSlots, List.countP_eq_length_filter]

theorem mem_used : h ∈ t.used ↔ t.isUsed h = true := by
  simp only [used, List.mem_filter]
  exact and_iff_right (List.mem_finRange h)

theorem nodup_used (t : ProcessTable) : t.used.Nodup := (List.nodup_finRange _).filter _

/-- The free list holds the slots that are not in use, each once. -/
structure Valid (t : ProcessTable) : Prop where
  nodup : t.free.slots.Nodup
  mem_free : ∀ h, h ∈ t.free.slots ↔ t.isUsed h = false

theorem valid_empty : empty.Valid where
  nodup := List.nodup_finRange _
  mem_free := fun h => by
    unfold isUsed empty
    rw [Table.get_fill]
    exact iff_of_true (List.mem_finRange h) rfl

theorem isUsed_empty (h : Slot) : empty.isUsed h = false := by
  unfold isUsed empty
  exact Table.get_fill _ h

theorem Valid.congr (ht : t.Valid) (hinUse : u.inUse = t.inUse) (hfree : u.free = t.free) :
    u.Valid where
  nodup := hfree ▸ ht.nodup
  mem_free := fun h => by
    simp only [isUsed, hfree, hinUse]
    exact ht.mem_free h

/-- There is room in the free list for a slot in use. -/
theorem Valid.length_free_lt (ht : t.Valid) (hh : t.isUsed h = true) :
    t.free.slots.length < maxProcesses := by
  have hnot : h ∉ t.free.slots := fun hmem => by
    rw [(ht.mem_free h).1 hmem] at hh
    exact Bool.false_ne_true hh
  have hnodup : (h :: t.free.slots).Nodup := List.nodup_cons.2 ⟨hnot, ht.nodup⟩
  have hle := (List.subperm_of_subset hnodup fun i _ => List.mem_finRange i).length_le
  rwa [List.length_finRange] at hle

/-! ## Allocating and releasing a slot -/

/-- What `allocate` makes of a table when it hands out `h`. -/
structure Allocated (t : ProcessTable) (h : Slot) (u : ProcessTable) : Prop where
  wasFree : t.isUsed h = false
  get : ∀ i, u.get i = if h = i then .blank else t.get i
  isUsed : ∀ i, u.isUsed i = if h = i then true else t.isUsed i
  valid : u.Valid

theorem Valid.allocate (ht : t.Valid) (h_some : t.allocate = some (h, u)) : t.Allocated h u := by
  unfold ProcessTable.allocate at h_some
  cases hpop : t.free.pop with
  | none =>
    rw [hpop] at h_some
    cases h_some
  | some slotAndRest =>
    obtain ⟨slot, rest⟩ := slotAndRest
    rw [hpop] at h_some
    cases h_some
    have hslots : t.free.slots = h :: rest.slots := FreeList.pop_eq_some_iff.1 hpop
    have hnodup := ht.nodup
    rw [hslots] at hnodup
    obtain ⟨hnot, hnodup⟩ := List.nodup_cons.1 hnodup
    refine ⟨(ht.mem_free h).1 (hslots ▸ List.mem_cons_self), ?_, ?_, ⟨hnodup, ?_⟩⟩
    · intro i
      exact Table.get_set _ h i _
    · intro i
      exact Table.get_set _ h i _
    · intro i
      unfold ProcessTable.isUsed
      dsimp only
      rw [Table.get_set]
      by_cases hi : h = i
      · subst hi
        rw [if_pos rfl]
        exact iff_of_false hnot (Ne.symm Bool.false_ne_true)
      · rw [if_neg hi]
        have hmem := ht.mem_free i
        rw [hslots, List.mem_cons, or_iff_right (Ne.symm hi)] at hmem
        exact hmem

/-- Only a full table hands out no slot. -/
theorem Valid.allocate_eq_none_iff (ht : t.Valid) :
    t.allocate = none ↔ ∀ h, t.isUsed h = true := by
  have hpop : t.allocate = none ↔ t.free.slots = [] := by
    rw [← FreeList.pop_eq_none_iff]
    unfold ProcessTable.allocate
    cases t.free.pop with
    | none => exact iff_of_true rfl rfl
    | some slotAndRest => exact iff_of_false (Option.some_ne_none _) (Option.some_ne_none _)
  rw [hpop, List.eq_nil_iff_forall_not_mem]
  refine forall_congr' fun h => ?_
  rw [ht.mem_free h, Bool.not_eq_false]

/-- What `release` makes of a table. -/
structure Released (t : ProcessTable) (h : Slot) (u : ProcessTable) : Prop where
  get : ∀ i, h ≠ i → u.get i = t.get i
  isUsed : ∀ i, u.isUsed i = if h = i then false else t.isUsed i
  free : u.free.slots = t.free.slots ++ [h]
  valid : u.Valid

/-- A slot in use can be released. -/
theorem Valid.release (ht : t.Valid) (hh : t.isUsed h = true) :
    ∃ u, t.release h = .ok u ∧ t.Released h u := by
  have hnot : h ∉ t.free.slots := fun hmem => by
    rw [(ht.mem_free h).1 hmem] at hh
    exact Bool.false_ne_true hh
  have hget : ∀ i, h ≠ i → (t.modify h ({ · with pid := 0 })).get i = t.get i := fun i hi => by
    rw [get_modify, if_neg hi]
  unfold ProcessTable.release
  rw [if_pos hh, FreeList.push_of_lt (ht.length_free_lt hh)]
  refine ⟨_, rfl, hget, fun i => Table.get_set _ h i _, rfl, ⟨?_, ?_⟩⟩
  · dsimp only
    rw [← List.concat_eq_append]
    exact (List.nodup_concat _ _).2 ⟨hnot, ht.nodup⟩
  · intro i
    unfold ProcessTable.isUsed
    dsimp only
    rw [Table.get_set, List.mem_append, List.mem_singleton]
    by_cases hi : h = i
    · rw [if_pos hi]
      exact iff_of_true (.inr hi.symm) rfl
    · rw [if_neg hi, or_iff_left (Ne.symm hi)]
      exact ht.mem_free i

end ProcessTable

end Nucleus
