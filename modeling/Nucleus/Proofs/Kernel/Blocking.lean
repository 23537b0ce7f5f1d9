import Nucleus.Kernel.Service
import Nucleus.Proofs.Kernel.Consistency
import Nucleus.Proofs.Kernel.View

/-!
# Blocking

While a process runs, fewer semaphores have waiters than there are processes, so there is a wait
list left for it to block on (`Accounted.exists_freeList`): taking a unit always ends, and the
running process blocks exactly if the value was not positive (`acquire_finishes`).
-/

namespace Nucleus

theorem length_le_length_flatMap {α β : Type} {f : α → List β} {l : List α}
    (hf : ∀ a ∈ l, f a ≠ []) : l.length ≤ (l.flatMap f).length := by
  induction l with
  | nil => exact Nat.le_refl 0
  | cons a l ih =>
    have hhead := List.length_pos_of_ne_nil (hf a List.mem_cons_self)
    have htail := ih fun b hb => hf b (List.mem_cons_of_mem a hb)
    simp only [List.length_cons, List.flatMap_cons, List.length_append]
    omega

/-- A value becomes negative by losing a unit exactly if it was not positive. -/
theorem Count.add_neg_one_neg_iff (value : Count) :
    saturatingAdd value (-1) < 0 ↔ ¬ 0 < value.toInt := by
  have hzero : (0 : Count).toInt = 0 := rfl
  rw [Int32.lt_iff_toInt_lt, toInt_add_neg_one, hzero, least]
  omega

namespace Kernel

open Outcome

variable {k k' : Kernel} {h : Slot} {id : SemaphoreId}

/-! ## Wait lists -/

namespace Accounted

/-- Every semaphore with waiters has one of its own. -/
theorem length_ids_le (hk : k.Accounted) :
    k.waits.ids.length ≤
      countSlots fun h => k.processes.isUsed h && (k.processes.get h).waitsOn.isSome := by
  have hne : ∀ id ∈ k.waits.ids, k.waits.waiting id ≠ [] := fun id => hk.waits.mem_ids_iff.1
  have hcount := k.countP_used fun h => (k.processes.get h).waitsOn.isSome
  rw [List.countP_eq_length_filter, ← hk.perm_waiting.length_eq] at hcount
  rw [← hcount]
  exact length_le_length_flatMap hne

/-- While a process runs, a wait list is free. -/
theorem exists_freeList (hk : k.Accounted) (hh : k.current = some h) :
    k.waits.free.slots ≠ [] := by
  have hmark : (k.processes.get h).waitsOn = none := (hk.at_processor hh).mark
  have hids := hk.length_ids_le
  have hcount : (countSlots fun g => k.processes.isUsed g && (k.processes.get g).waitsOn.isSome) <
      maxProcesses := countSlots_lt (h := h) (by simp [hmark])
  have hactive := hk.waits.length_active
  rw [hk.waits.length_ids] at hids
  intro hfree
  rw [hfree, List.length_nil] at hactive
  omega

end Accounted

/-! ## Taking a unit -/

/-- The value of a semaphore is what was added to it, wherever its word lies. -/
theorem value_add_self (k : Kernel) (id : SemaphoreId) (delta : Count) :
    (k.add id delta).value id = Count.saturatingAdd (k.value id) delta := by
  cases id with
  | clock => rfl
  | device d => simp [value, add, SemaphoreValues.add, SemaphoreValues.value]
  | user address =>
    simp [value, add, SemaphoreValues.add, SemaphoreValues.value, Machine.read_write_self]

/-- The running process goes on if the value was positive, and otherwise blocks. -/
theorem acquire_finishes (hk : k.Accounted) (hh : k.current = some h) (id : SemaphoreId) :
    (acquire id id.waitKind k).Finishes fun went k' =>
      if 0 < (k.value id).toInt then went = true ∧ k' = k.add id (-1)
      else went = false ∧ (k.add id (-1)).Moved h .processor (.waitList id) k' ∧
        (k.add id (-1)).SameWorld k' := by
  have hadd : (k.add id (-1)).Accounted := hk.congr (Alike.add k id (-1)).toSameBooks
  have hcurrent : (k.add id (-1)).current = some h := hh
  have hneg := Count.add_neg_one_neg_iff (k.value id)
  rw [← value_add_self] at hneg
  simp only [acquire, Finishes, Action.ends_bind, Action.ends_change, Action.ends_look]
  by_cases hpos : 0 < (k.value id).toInt
  · rw [if_neg (fun hlt => hneg.1 hlt hpos), Action.ends_pure, if_pos hpos]
    exact ⟨rfl, rfl⟩
  · have hroom : (k.add id (-1)).waits.waiting id ≠ [] ∨ (k.add id (-1)).waits.free.slots ≠ [] :=
      .inr (hadd.exists_freeList hcurrent)
    have hsuspend := suspend_finishes hadd hcurrent hroom
    rw [if_pos (hneg.2 hpos), Action.ends_bind]
    refine (hsuspend.and_always (suspend_sameWorld id _ _)).mono fun _ k' hm => ?_
    rw [Action.ends_pure, if_neg hpos]
    exact ⟨rfl, hm⟩

/-- What taking a unit does to the view of the semaphore. -/
theorem acquire_view (hk : k.Accounted) (hid : id.IsOrdinary) (hh : k.current = some h) :
    (acquire id id.waitKind k).Finishes fun _ k' =>
      k'.view id = Use.take.act id.isSoft (k.view id) := by
  have hadd : (k.add id (-1)).view id = (k.view id).add (-1) := by rw [view_add hid, if_pos rfl]
  refine (acquire_finishes hk hh id).mono fun went k' hk' => ?_
  show k'.view id = if 0 < (k.value id).toInt then _ else _
  split at hk'
  · rename_i hpos
    rw [if_pos hpos, hk'.2, hadd]
  · rename_i hpos
    obtain ⟨-, hm, hw⟩ := hk'
    rw [if_neg hpos, hm.view_of_blocked hw hh, hadd]

/-- Taking a unit from one semaphore leaves the others alone. -/
theorem acquire_untouched (hk : k.Accounted) (hid : id.IsOrdinary) (hh : k.current = some h)
    {other : SemaphoreId} (hne : other ≠ id) :
    (acquire other other.waitKind k).Finishes fun _ k' => k.Untouched id k' := by
  have hadd := Untouched.add hid hne k (-1)
  refine (acquire_finishes hk hh other).mono fun went k' hk' => ?_
  split at hk'
  · rw [hk'.2]
    exact hadd
  · obtain ⟨-, hm, hw⟩ := hk'
    exact hadd.trans (hm.untouched hw nofun fun heq => hne (Place.waitList.inj heq))

end Kernel

end Nucleus
