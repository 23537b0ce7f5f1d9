import Nucleus.Process.PidIndex
import Mathlib.Data.List.Nodup
import Mathlib.Data.List.Perm.Basic

/-!
# The pid index

What the index holds is read off `PidIndex.toList`. A new pid finds room unless the index is full,
and it joins what is there; a pid that is forgotten leaves the rest behind.
-/

namespace Nucleus.PidIndex

variable {α : Type} {t : PidIndex α} {pid : Pid} {value : α}

theorem place_filterMap (pid : Pid) (value : α) {es : List (Option (Pid × α))} :
    (es.filterMap id).length < es.length →
      ∃ fs, place pid value es = some fs ∧
        (fs.filterMap id).Perm ((pid, value) :: es.filterMap id) := by
  induction es with
  | nil => exact fun h => absurd h (Nat.lt_irrefl 0)
  | cons e es ih =>
    intro hroom
    cases e with
    | none => exact ⟨_, rfl, List.Perm.refl _⟩
    | some entry =>
      have hroom : (es.filterMap id).length < es.length := Nat.lt_of_succ_lt_succ hroom
      obtain ⟨fs, hfs, hperm⟩ := ih hroom
      refine ⟨some entry :: fs, ?_, ?_⟩
      · unfold place
        rw [hfs]
        rfl
      · exact (hperm.cons entry).trans (List.Perm.swap (pid, value) entry _)

theorem clear_filterMap {es : List (Option (Pid × α))} :
    (clear pid es).filterMap id = (es.filterMap id).eraseP fun entry => entry.1 = pid := by
  induction es with
  | nil => rfl
  | cons e es ih =>
    cases e with
    | none => exact ih
    | some entry =>
      have hcons : (some entry :: es).filterMap id = entry :: es.filterMap id := rfl
      simp only [clear, hcons]
      by_cases hpid : entry.1 = pid
      · rw [if_pos hpid, List.eraseP_cons_of_pos (by simpa using hpid)]
        rfl
      · rw [if_neg hpid, List.eraseP_cons_of_neg (by simpa using hpid), ← ih]
        rfl

/-- A pid is recorded while an entry is free. -/
theorem insert_of_lt (pid : Pid) (value : α) (hroom : t.length < maxProcesses) :
    ∃ u, t.insert pid value = some u ∧ u.toList.Perm ((pid, value) :: t.toList) := by
  have hlt : (t.entries.filterMap id).length < t.entries.length := t.bounded ▸ hroom
  obtain ⟨fs, hfs, hperm⟩ := place_filterMap pid value hlt
  unfold insert
  split
  · rename_i hnone
    rw [hfs] at hnone
    cases hnone
  · rename_i entries hsome
    rw [hfs] at hsome
    cases hsome
    exact ⟨_, rfl, hperm⟩

/-- A pid that is recorded once is forgotten with its value, and nothing else is. -/
theorem perm_remove (hkeys : (t.toList.map Prod.fst).Nodup) (hmem : (pid, value) ∈ t.toList) :
    t.toList.Perm ((pid, value) :: (t.remove pid).toList) := by
  have hremove : (t.remove pid).toList = t.toList.eraseP fun entry => entry.1 = pid :=
    clear_filterMap
  obtain ⟨entry, before, behind, -, hentry, hsplit, herase⟩ :=
    List.exists_of_eraseP (p := fun entry => decide (entry.1 = pid)) hmem (decide_eq_true rfl)
  have hperm : t.toList.Perm (entry :: (t.remove pid).toList) := by
    rw [hremove, herase, hsplit]
    exact List.perm_middle
  have heq : (pid, value) = entry :=
    List.inj_on_of_nodup_map hkeys hmem (hperm.mem_iff.2 List.mem_cons_self)
      (of_decide_eq_true hentry).symm
  rwa [heq]

/-- A pid that is recorded once is found with its value. -/
theorem lookup_eq_some_iff (hkeys : (t.toList.map Prod.fst).Nodup) :
    t.lookup pid = some value ↔ (pid, value) ∈ t.toList := by
  unfold lookup
  generalize t.toList = entries at hkeys
  induction entries with
  | nil => simp
  | cons entry entries ih =>
    obtain ⟨p, v⟩ := entry
    obtain ⟨hnot, hkeys⟩ := List.nodup_cons.1 hkeys
    have ih := ih hkeys
    by_cases hpid : pid = p
    · subst hpid
      rw [List.lookup_cons_self, List.mem_cons, Option.some.injEq, Prod.mk.injEq, eq_comm,
        and_iff_right rfl]
      refine (or_iff_left fun hmem => hnot ?_).symm
      exact List.mem_map.2 ⟨(pid, value), hmem, rfl⟩
    · have hne : (pid, value) ≠ (p, v) := fun heq => hpid (Prod.mk.inj heq).1
      rw [List.lookup_cons, beq_false_of_ne hpid, List.mem_cons, or_iff_right hne]
      exact ih

end Nucleus.PidIndex
