import Nucleus.Semaphore.WaitLists
import Mathlib.Data.List.Nodup
import Mathlib.Data.List.Perm.Basic
import Mathlib.Data.List.TakeWhile

/-!
# The order of the wait lists

`WaitLists.Valid` is what every operation on wait lists keeps: each list is either active or free,
the active ones belong to different semaphores and stand in their order, and a list is active
exactly while somebody waits in it. Seen from outside the wait lists are the function
`WaitLists.waiting`; the lemmas at the end say what joining and shrinking a list does to it.
-/

namespace Nucleus

/-- An element put behind all that come before it keeps a list in order. -/
theorem pairwise_insert {α : Type} {R : α → α → Prop} {p : α → Bool} {a : α}
    (htrans : ∀ {x y z}, R x y → R y z → R x z) :
    ∀ {l : List α}, l.Pairwise R → (∀ x ∈ l, p x = true → R x a) →
      (∀ x ∈ l, p x = false → R a x) →
      (l.takeWhile p ++ a :: l.dropWhile p).Pairwise R := by
  intro l
  induction l with
  | nil => simp
  | cons x l ih =>
    intro hl hbelow habove
    obtain ⟨hx, hl⟩ := List.pairwise_cons.1 hl
    cases hp : p x with
    | true =>
      rw [List.takeWhile_cons_of_pos hp, List.dropWhile_cons_of_pos hp, List.cons_append]
      have ih := ih hl (fun y hy => hbelow y (List.mem_cons_of_mem _ hy))
        (fun y hy => habove y (List.mem_cons_of_mem _ hy))
      refine List.pairwise_cons.2 ⟨fun y hy => ?_, ih⟩
      rcases List.mem_append.1 hy with hy | hy
      · exact hx y ((List.takeWhile_sublist p).mem hy)
      · rcases List.mem_cons.1 hy with rfl | hy
        · exact hbelow x List.mem_cons_self hp
        · exact hx y ((List.dropWhile_sublist p).mem hy)
    | false =>
      have hp : ¬ p x = true := by rw [hp]; exact Bool.false_ne_true
      rw [List.takeWhile_cons_of_neg hp, List.dropWhile_cons_of_neg hp, List.nil_append]
      have hax : R a x := habove x List.mem_cons_self (by simpa using hp)
      refine List.pairwise_cons.2 ⟨fun y hy => ?_, List.pairwise_cons.2 ⟨hx, hl⟩⟩
      rcases List.mem_cons.1 hy with rfl | hy
      · exact hax
      · exact htrans hax (hx y hy)

namespace WaitLists

variable {w : WaitLists} {id other : SemaphoreId} {i j : Fin maxProcesses}

/-- The semaphore of one wait list comes before that of another. -/
def Precedes (w : WaitLists) (i j : Fin maxProcesses) : Prop :=
  ∃ a b, w.idAt i = some a ∧ w.idAt j = some b ∧ a.rank < b.rank

theorem Precedes.trans {k : Fin maxProcesses} (hij : w.Precedes i j) (hjk : w.Precedes j k) :
    w.Precedes i k := by
  obtain ⟨a, b, ha, hb, hab⟩ := hij
  obtain ⟨b', c, hb', hc, hbc⟩ := hjk
  obtain rfl : b = b' := Option.some.inj (hb.symm.trans hb')
  exact ⟨a, c, ha, hc, Nat.lt_trans hab hbc⟩

theorem Precedes.congr {v : WaitLists} (h : w.Precedes i j) (hi : v.idAt i = w.idAt i)
    (hj : v.idAt j = w.idAt j) : v.Precedes i j := by
  obtain ⟨a, b, ha, hb, hab⟩ := h
  exact ⟨a, b, hi.trans ha, hj.trans hb, hab⟩

/-- The active and the free wait lists make up the table, and the active ones are in order. -/
structure Ordered (w : WaitLists) : Prop where
  /-- Every wait list is active or free, and only once. -/
  slots : (w.active ++ w.free.slots).Perm (List.finRange maxProcesses)
  /-- An active wait list belongs to a semaphore. -/
  named : ∀ i ∈ w.active, ∃ id, w.idAt i = some id
  /-- The semaphores of the active wait lists ascend, so they are all different. -/
  ascending : w.active.Pairwise w.Precedes
  /-- Nobody waits in a free wait list. -/
  unused : ∀ i ∈ w.free.slots, (w.queueAt i).items = []

/-- The wait lists are in order, and every active one holds somebody, nobody twice. -/
structure Valid (w : WaitLists) : Prop extends Ordered w where
  /-- Somebody waits in an active wait list. -/
  inhabited : ∀ i ∈ w.active, (w.queueAt i).items ≠ []
  /-- Nobody waits twice in one list. -/
  nodup : ∀ i ∈ w.active, (w.queueAt i).items.Nodup

theorem valid_empty : empty.Valid where
  slots := List.Perm.refl _
  named := fun i hi => absurd hi List.not_mem_nil
  ascending := List.Pairwise.nil
  unused := fun i _ => by simp [queueAt, empty, Queue.empty]
  inhabited := fun i hi => absurd hi List.not_mem_nil
  nodup := fun i hi => absurd hi List.not_mem_nil

namespace Ordered

theorem length_active (hw : w.Ordered) :
    w.active.length + w.free.slots.length = maxProcesses := by
  have h := hw.slots.length_eq
  rwa [List.length_append, List.length_finRange] at h

theorem nodup_slots (hw : w.Ordered) : (w.active ++ w.free.slots).Nodup :=
  hw.slots.nodup_iff.2 (List.nodup_finRange _)

theorem nodup_active (hw : w.Ordered) : w.active.Nodup :=
  (List.nodup_append.1 hw.nodup_slots).1

theorem not_mem_free (hw : w.Ordered) (hi : i ∈ w.active) : i ∉ w.free.slots := fun hf =>
  (List.nodup_append.1 hw.nodup_slots).2.2 i hi i hf rfl

/-- There is room to free one more wait list while one is active. -/
theorem length_free_lt (hw : w.Ordered) (hi : i ∈ w.active) :
    w.free.slots.length < maxProcesses := by
  have := hw.length_active
  have := List.length_pos_of_mem hi
  omega

/-- Different active wait lists belong to different semaphores. -/
theorem idAt_injective (hw : w.Ordered) (hi : i ∈ w.active) (hj : j ∈ w.active)
    (h : w.idAt i = w.idAt j) : i = j := by
  have hdistinct : (w.active.map w.idAt).Nodup := by
    refine List.pairwise_map.2 (hw.ascending.imp ?_)
    rintro x y ⟨a, b, ha, hb, hab⟩ heq
    have : a = b := Option.some.inj (ha.symm.trans (heq.trans hb))
    exact Nat.lt_irrefl _ (this ▸ hab)
  exact List.inj_on_of_nodup_map hdistinct hi hj h

theorem find_eq_some_iff (hw : w.Ordered) :
    w.find id = some i ↔ i ∈ w.active ∧ w.idAt i = some id := by
  constructor
  · intro h
    have hid := List.find?_some (p := fun i => decide (w.idAt i = some id)) h
    exact ⟨List.mem_of_find?_eq_some h, of_decide_eq_true hid⟩
  · rintro ⟨hi, hid⟩
    cases hfind : w.find id with
    | none =>
      have := List.find?_eq_none.1 hfind i hi
      exact absurd hid (of_decide_eq_false (by simpa using this))
    | some j =>
      have hj := List.mem_of_find?_eq_some hfind
      have hjd := List.find?_some (p := fun i => decide (w.idAt i = some id)) hfind
      rw [hw.idAt_injective hj hi ((of_decide_eq_true hjd).trans hid.symm)]

end Ordered

theorem find_eq_none_iff : w.find id = none ↔ ∀ i ∈ w.active, w.idAt i ≠ some id := by
  simp only [find, List.find?_eq_none]
  simp

theorem waiting_of_unassigned (h : ∀ i ∈ w.active, w.idAt i ≠ some id) : w.waiting id = [] := by
  simp only [waiting, find_eq_none_iff.2 h]
  rfl

theorem Ordered.waiting_of_assigned (hw : w.Ordered) (hi : i ∈ w.active)
    (hid : w.idAt i = some id) : w.waiting id = (w.queueAt i).items := by
  simp only [waiting, hw.find_eq_some_iff.2 ⟨hi, hid⟩]
  rfl

/-- Either a semaphore has an active wait list or nobody waits on it. -/
theorem Ordered.assigned_or (hw : w.Ordered) (id : SemaphoreId) :
    (∃ i ∈ w.active, w.idAt i = some id ∧ w.waiting id = (w.queueAt i).items) ∨
      (∀ i ∈ w.active, w.idAt i ≠ some id) ∧ w.waiting id = [] := by
  by_cases h : ∃ i ∈ w.active, w.idAt i = some id
  · obtain ⟨i, hi, hid⟩ := h
    exact .inl ⟨i, hi, hid, hw.waiting_of_assigned hi hid⟩
  · have h : ∀ i ∈ w.active, w.idAt i ≠ some id := fun i hi hid => h ⟨i, hi, hid⟩
    exact .inr ⟨h, waiting_of_unassigned h⟩

namespace Valid

theorem waiting_eq_nil_iff (hw : w.Valid) : w.waiting id = [] ↔ w.find id = none := by
  rcases hw.assigned_or id with ⟨i, hi, hid, hq⟩ | ⟨hnone, hq⟩
  · have hfind := hw.find_eq_some_iff.2 ⟨hi, hid⟩
    rw [hq, hfind]
    exact ⟨fun h => absurd h (hw.inhabited i hi), fun h => absurd h (Option.some_ne_none i)⟩
  · exact ⟨fun _ => find_eq_none_iff.2 hnone, fun _ => hq⟩

theorem nodup_waiting (hw : w.Valid) (id : SemaphoreId) : (w.waiting id).Nodup := by
  rcases hw.assigned_or id with ⟨i, hi, -, hq⟩ | ⟨-, hq⟩
  · rw [hq]
    exact hw.nodup i hi
  · rw [hq]
    exact List.nodup_nil

theorem mem_ids_iff (hw : w.Valid) : id ∈ w.ids ↔ w.waiting id ≠ [] := by
  rw [Ne, hw.waiting_eq_nil_iff, find_eq_none_iff]
  simp [ids]

/-- The semaphores on which processes wait ascend. -/
theorem pairwise_ids (hw : w.Valid) : w.ids.Pairwise fun a b => a.rank < b.rank := by
  simp only [ids, List.pairwise_filterMap]
  refine hw.ascending.imp ?_
  rintro i j ⟨a, b, ha, hb, hab⟩ a' ha' b' hb'
  rw [ha] at ha'
  rw [hb] at hb'
  cases ha'
  cases hb'
  exact hab

theorem nodup_ids (hw : w.Valid) : w.ids.Nodup :=
  hw.pairwise_ids.imp fun hab heq => Nat.ne_of_lt hab (congrArg SemaphoreId.rank heq)

theorem length_ids (hw : w.Valid) : w.ids.length = w.active.length := by
  simp only [ids, List.length_filterMap_eq_countP, List.countP_eq_length]
  intro i hi
  obtain ⟨a, ha⟩ := hw.named i hi
  rw [ha]
  rfl

/-- The free wait lists are those that no semaphore uses. -/
theorem freeCount_eq (hw : w.Valid) : w.freeCount = maxProcesses - w.ids.length := by
  have h : w.freeCount = w.free.slots.length := rfl
  have := hw.length_active
  rw [h, hw.length_ids]
  omega

end Valid

/-! ## Joining a wait list -/

@[simp] theorem idAt_setQueue {q : Queue Slot} : (w.setQueue i q).idAt j = w.idAt j := by
  simp only [idAt, setQueue, Table.get_modify]
  split
  · rename_i h
    rw [h]
  · rfl

@[simp] theorem queueAt_setQueue {q : Queue Slot} :
    (w.setQueue i q).queueAt j = if i = j then q else w.queueAt j := by
  simp only [queueAt, setQueue, Table.get_modify]
  split <;> rfl

theorem Ordered.setQueue {q : Queue Slot} (hw : w.Ordered) (hi : i ∈ w.active) :
    (w.setQueue i q).Ordered where
  slots := hw.slots
  named := fun j hj => by
    rw [idAt_setQueue]
    exact hw.named j hj
  ascending := hw.ascending.imp fun h => h.congr idAt_setQueue idAt_setQueue
  unused := fun j hj => by
    have hij : i ≠ j := fun h => hw.not_mem_free hi (h ▸ hj)
    rw [queueAt_setQueue, if_neg hij]
    exact hw.unused j hj

theorem Ordered.waiting_setQueue {q : Queue Slot} (hw : w.Ordered) (hi : i ∈ w.active)
    (hid : w.idAt i = some id) (other : SemaphoreId) :
    (w.setQueue i q).waiting other = if other = id then q.items else w.waiting other := by
  have hw' : (w.setQueue i q).Ordered := hw.setQueue hi
  by_cases h : other = id
  · subst h
    rw [if_pos rfl, hw'.waiting_of_assigned hi (idAt_setQueue.trans hid), queueAt_setQueue,
      if_pos rfl]
  · rw [if_neg h]
    rcases hw.assigned_or other with ⟨j, hj, hjd, hq⟩ | ⟨hnone, hq⟩
    · have hij : i ≠ j := by
        rintro rfl
        exact h (Option.some.inj (hjd.symm.trans hid))
      rw [hw'.waiting_of_assigned hj (idAt_setQueue.trans hjd), queueAt_setQueue, if_neg hij, hq]
    · rw [hq]
      refine waiting_of_unassigned fun j hj => ?_
      rw [idAt_setQueue]
      exact hnone j hj

theorem idAt_activate : (w.activate id i).idAt j = if i = j then some id else w.idAt j := by
  simp only [idAt, activate, Table.get_modify]
  split <;> rfl

theorem queueAt_activate : (w.activate id i).queueAt j = w.queueAt j := by
  simp only [queueAt, activate, Table.get_modify]
  split
  · rename_i h
    rw [h]
  · rfl

theorem perm_active_activate : (w.activate id i).active.Perm (i :: w.active) := by
  have h : (w.active.takeWhile (w.isBefore id) ++ i :: w.active.dropWhile (w.isBefore id)).Perm
      (i :: (w.active.takeWhile (w.isBefore id) ++ w.active.dropWhile (w.isBefore id))) :=
    List.perm_middle
  rwa [List.takeWhile_append_dropWhile] at h

theorem mem_active_activate : j ∈ (w.activate id i).active ↔ j = i ∨ j ∈ w.active := by
  rw [perm_active_activate.mem_iff, List.mem_cons]

/-- The first free wait list, given to a semaphore that has none, takes its place in the order. -/
theorem Ordered.activate {rest : List (Fin maxProcesses)} (hw : w.Ordered)
    (hfree : w.free.slots = i :: rest) (hnone : ∀ j ∈ w.active, w.idAt j ≠ some id) :
    ({ w with free := ⟨rest⟩ }.activate id i).Ordered := by
  have hi : i ∉ w.active := fun h => hw.not_mem_free h (hfree ▸ List.mem_cons_self)
  have hkeep : ∀ j ∈ w.active, ({ w with free := ⟨rest⟩ }.activate id i).idAt j = w.idAt j := by
    intro j hj
    have hij : i ≠ j := fun h => hi (h ▸ hj)
    rw [idAt_activate, if_neg hij]
    rfl
  have hself : ({ w with free := ⟨rest⟩ }.activate id i).idAt i = some id := by
    rw [idAt_activate, if_pos rfl]
  refine ⟨?_, ?_, ?_, ?_⟩
  · refine ((perm_active_activate (w := { w with free := ⟨rest⟩ })).append_right rest).trans ?_
    refine List.Perm.trans ?_ hw.slots
    rw [hfree]
    exact List.perm_middle.symm
  · intro j hj
    rcases mem_active_activate.1 hj with rfl | hj
    · exact ⟨id, hself⟩
    · rw [hkeep j hj]
      exact hw.named j hj
  · refine pairwise_insert (fun hxy hyz => hxy.trans hyz) ?_ ?_ ?_
    · exact hw.ascending.imp_of_mem fun hx hy h => h.congr (hkeep _ hx) (hkeep _ hy)
    · intro x hx hbefore
      obtain ⟨a, ha⟩ := hw.named x hx
      refine ⟨a, id, (hkeep x hx).trans ha, hself, ?_⟩
      have hbefore : w.isBefore id x = true := hbefore
      simpa [isBefore, ha] using hbefore
    · intro x hx hbefore
      obtain ⟨a, ha⟩ := hw.named x hx
      refine ⟨id, a, hself, (hkeep x hx).trans ha, ?_⟩
      have hbefore : w.isBefore id x = false := hbefore
      have hle : id.rank ≤ a.rank := by simpa [isBefore, ha] using hbefore
      have hne : id.rank ≠ a.rank := fun h =>
        hnone x hx (ha.trans (congrArg some (SemaphoreId.rank_injective h.symm)))
      exact Nat.lt_of_le_of_ne hle hne
  · intro j hj
    rw [queueAt_activate]
    exact hw.unused j (hfree ▸ List.mem_cons_of_mem _ hj)

/-- No wait list is found for a semaphore that has none while none is free. -/
theorem Valid.assign_eq_none_iff (hw : w.Valid) :
    w.assign id = none ↔ w.waiting id = [] ∧ w.free.slots = [] := by
  rw [hw.waiting_eq_nil_iff, ← FreeList.pop_eq_none_iff]
  unfold assign
  cases w.find id <;> simp

/-- A semaphore is given an active wait list. What waits where does not change yet, but the list
may still be empty. -/
structure Assigned (w : WaitLists) (id : SemaphoreId) (i : Fin maxProcesses) (v : WaitLists) :
    Prop extends Ordered v where
  mem : i ∈ v.active
  idAt : v.idAt i = some id
  inhabited : ∀ j ∈ v.active, i ≠ j → (v.queueAt j).items ≠ []
  nodup : ∀ j ∈ v.active, (v.queueAt j).items.Nodup
  waiting : ∀ other, v.waiting other = w.waiting other

theorem Valid.assigned_of_find (hw : w.Valid) (hfind : w.find id = some i) :
    w.Assigned id i w where
  toOrdered := hw.toOrdered
  mem := (hw.find_eq_some_iff.1 hfind).1
  idAt := (hw.find_eq_some_iff.1 hfind).2
  inhabited := fun j hj _ => hw.inhabited j hj
  nodup := hw.nodup
  waiting := fun _ => rfl

theorem Valid.assigned_of_free {rest : List (Fin maxProcesses)} (hw : w.Valid)
    (hfind : w.find id = none) (hfree : w.free.slots = i :: rest) :
    w.Assigned id i ({ w with free := ⟨rest⟩ }.activate id i) := by
  have hnone := find_eq_none_iff.1 hfind
  have hi : i ∉ w.active := fun h => hw.not_mem_free h (hfree ▸ List.mem_cons_self)
  have hempty : (w.queueAt i).items = [] := hw.unused i (hfree ▸ List.mem_cons_self)
  have hv := hw.activate hfree hnone
  have hself : ({ w with free := ⟨rest⟩ }.activate id i).idAt i = some id := by
    rw [idAt_activate, if_pos rfl]
  have hmem : ∀ j, j ∈ ({ w with free := ⟨rest⟩ }.activate id i).active ↔ j = i ∨ j ∈ w.active :=
    fun j => mem_active_activate
  have hqueue : ∀ j, ({ w with free := ⟨rest⟩ }.activate id i).queueAt j = w.queueAt j :=
    fun j => queueAt_activate
  refine ⟨hv, (hmem i).2 (.inl rfl), hself, ?_, ?_, ?_⟩
  · intro j hj hij
    rw [hqueue]
    exact hw.inhabited j (((hmem j).1 hj).resolve_left (Ne.symm hij))
  · intro j hj
    rw [hqueue]
    rcases (hmem j).1 hj with rfl | hj
    · rw [hempty]
      exact List.nodup_nil
    · exact hw.nodup j hj
  · intro other
    rcases hw.assigned_or other with ⟨j, hj, hjd, hq⟩ | ⟨hother, hq⟩
    · have hij : i ≠ j := fun h => hi (h ▸ hj)
      have hjd : ({ w with free := ⟨rest⟩ }.activate id i).idAt j = some other := by
        rw [idAt_activate, if_neg hij]
        exact hjd
      rw [hv.waiting_of_assigned ((hmem j).2 (.inr hj)) hjd, hq, hqueue]
    · rw [hq]
      by_cases h : other = id
      · subst h
        rw [hv.waiting_of_assigned ((hmem i).2 (.inl rfl)) hself, hqueue, hempty]
      · refine waiting_of_unassigned fun j hj => ?_
        rw [idAt_activate]
        split
        · exact fun heq => h (Option.some.inj heq).symm
        · rename_i hij
          exact hother j (((hmem j).1 hj).resolve_left (Ne.symm hij))

theorem Valid.assigned {v : WaitLists} (hw : w.Valid) (h : w.assign id = some (i, v)) :
    w.Assigned id i v := by
  unfold assign at h
  cases hfind : w.find id with
  | some j =>
    rw [hfind] at h
    cases h
    exact hw.assigned_of_find hfind
  | none =>
    rw [hfind] at h
    obtain ⟨⟨j, free⟩, hpop, heq⟩ := Option.map_eq_some_iff.1 h
    cases heq
    exact hw.assigned_of_free hfind (FreeList.pop_eq_some_iff.1 hpop)

/-- The wait list that a semaphore was given becomes whole when somebody joins it. -/
theorem Assigned.setQueue {v : WaitLists} {q : Queue Slot} (h : w.Assigned id i v)
    (hne : q.items ≠ []) (hnodup : q.items.Nodup) : (v.setQueue i q).Valid where
  toOrdered := h.toOrdered.setQueue h.mem
  inhabited := fun j hj => by
    rw [queueAt_setQueue]
    split
    · exact hne
    · rename_i hij
      exact h.inhabited j hj hij
  nodup := fun j hj => by
    rw [queueAt_setQueue]
    split
    · exact hnodup
    · exact h.nodup j hj

/-! ## Shrinking a wait list -/

/-- The wait lists after an active one has been freed. -/
def freed (w : WaitLists) (i : Fin maxProcesses) : WaitLists where
  lists := w.lists.modify i ({ · with id := none })
  active := w.active.erase i
  free := ⟨w.free.slots ++ [i]⟩

theorem Ordered.release_eq (hw : w.Ordered) (hi : i ∈ w.active) :
    w.release i = .ok (w.freed i) := by
  simp only [release, FreeList.push_of_lt (hw.length_free_lt hi)]
  rfl

theorem idAt_freed (h : i ≠ j) : (w.freed i).idAt j = w.idAt j := by
  unfold idAt freed
  rw [Table.get_modify, if_neg h]

theorem queueAt_freed : (w.freed i).queueAt j = w.queueAt j := by
  simp only [queueAt, freed, Table.get_modify]
  split
  · rename_i h
    rw [h]
  · rfl

theorem Ordered.mem_active_freed (hw : w.Ordered) :
    j ∈ (w.freed i).active ↔ i ≠ j ∧ j ∈ w.active := by
  rw [ne_comm]
  exact hw.nodup_active.mem_erase_iff

theorem Ordered.freed (hw : w.Ordered) (hi : i ∈ w.active) (hempty : (w.queueAt i).items = []) :
    (w.freed i).Ordered where
  slots := by
    refine List.Perm.trans ?_ hw.slots
    refine List.Perm.trans ?_ ((List.perm_cons_erase hi).symm.append_right w.free.slots)
    refine List.Perm.trans ?_ (List.perm_append_singleton i _)
    exact List.Perm.of_eq (List.append_assoc _ _ _).symm
  named := fun j hj => by
    obtain ⟨hij, hj⟩ := hw.mem_active_freed.1 hj
    rw [idAt_freed hij]
    exact hw.named j hj
  ascending := by
    refine (hw.ascending.sublist List.erase_sublist).imp_of_mem fun hx hy h => ?_
    exact h.congr (idAt_freed (hw.mem_active_freed.1 hx).1)
      (idAt_freed (hw.mem_active_freed.1 hy).1)
  unused := fun j hj => by
    rw [queueAt_freed]
    rcases List.mem_append.1 hj with hj | hj
    · exact hw.unused j hj
    · rw [List.mem_singleton.1 hj]
      exact hempty

theorem Ordered.waiting_freed (hw : w.Ordered) (hi : i ∈ w.active)
    (hempty : (w.queueAt i).items = []) (other : SemaphoreId) :
    (w.freed i).waiting other = w.waiting other := by
  rcases hw.assigned_or other with ⟨j, hj, hjd, hq⟩ | ⟨hother, hq⟩
  · by_cases hij : i = j
    · subst hij
      rw [hq, hempty]
      refine waiting_of_unassigned fun j hj hjo => ?_
      obtain ⟨hij, hj⟩ := hw.mem_active_freed.1 hj
      rw [idAt_freed hij] at hjo
      exact hij (hw.idAt_injective hi hj (hjd.trans hjo.symm))
    · have hj' : j ∈ (w.freed i).active := hw.mem_active_freed.2 ⟨hij, hj⟩
      rw [(hw.freed hi hempty).waiting_of_assigned hj' ((idAt_freed hij).trans hjd), hq,
        queueAt_freed]
  · rw [hq]
    refine waiting_of_unassigned fun j hj => ?_
    obtain ⟨hij, hj⟩ := hw.mem_active_freed.1 hj
    rw [idAt_freed hij]
    exact hother j hj

/-- Leaving part of an active wait list behind never fails, and only that list changes. -/
theorem Valid.shrink_spec (hw : w.Valid) (hi : i ∈ w.active) (hid : w.idAt i = some id)
    (rest : Queue Slot) (hrest : rest.items.Nodup) :
    ∃ v, w.shrink i rest = .ok v ∧ v.Valid ∧
      ∀ other, v.waiting other = if other = id then rest.items else w.waiting other := by
  have hv : (w.setQueue i rest).Ordered := hw.toOrdered.setQueue hi
  have hnodup : ∀ j ∈ w.active, ((w.setQueue i rest).queueAt j).items.Nodup := by
    intro j hj
    rw [queueAt_setQueue]
    split
    · exact hrest
    · exact hw.nodup j hj
  have hinhabited : ∀ j ∈ w.active, i ≠ j → ((w.setQueue i rest).queueAt j).items ≠ [] := by
    intro j hj hij
    rw [queueAt_setQueue, if_neg hij]
    exact hw.inhabited j hj
  unfold shrink
  cases hq : rest.items with
  | nil =>
    have hempty : ((w.setQueue i rest).queueAt i).items = [] := by
      rw [queueAt_setQueue, if_pos rfl, hq]
    refine ⟨_, ?_, ⟨hv.freed hi hempty, ?_, ?_⟩, ?_⟩
    · rw [show rest.isEmpty = true from by unfold Queue.isEmpty; rw [hq]; rfl]
      exact hv.release_eq hi
    · intro j hj
      obtain ⟨hij, hj⟩ := hv.mem_active_freed.1 hj
      rw [queueAt_freed]
      exact hinhabited j hj hij
    · intro j hj
      rw [queueAt_freed]
      exact hnodup j (hv.mem_active_freed.1 hj).2
    · intro other
      rw [hv.waiting_freed hi hempty, hw.waiting_setQueue hi hid, hq]
  | cons h t =>
    refine ⟨_, ?_, ⟨hv, ?_, hnodup⟩, ?_⟩
    · rw [show rest.isEmpty = false from by unfold Queue.isEmpty; rw [hq]; rfl]
      rfl
    · intro j hj
      by_cases hij : i = j
      · rw [queueAt_setQueue, if_pos hij, hq]
        exact List.cons_ne_nil h t
      · exact hinhabited j hj hij
    · intro other
      rw [hw.waiting_setQueue hi hid, hq]

/-! ## Leaving the wait lists -/

/-- Processes have left the wait lists, and who stays keeps its place in the queue. A list in which
nobody is left is free again and belongs to no semaphore any more; the other active ones stay active
in their order. -/
structure Without (w : WaitLists) (gone : Slot → Bool) (v : WaitLists) : Prop where
  queue : ∀ i, (v.queueAt i).items = (w.queueAt i).items.filter (!gone ·)
  active : v.active = w.active.filter fun i => (v.queueAt i).items ≠ []
  free : ∃ emptied, v.free.slots = w.free.slots ++ emptied ∧
    emptied.Perm (w.active.filter fun i => (v.queueAt i).items = [])
  idAt : ∀ i id, v.idAt i = some id ↔
    w.idAt i = some id ∧ (i ∈ w.active → (v.queueAt i).items ≠ [])

/-- Whoever stands in a wait list waits on its semaphore. -/
theorem Ordered.exists_waiting {h : Slot} (hw : w.Ordered) (hh : h ∈ (w.queueAt i).items) :
    ∃ id, i ∈ w.active ∧ w.idAt i = some id ∧ h ∈ w.waiting id := by
  have hslot : i ∈ w.active ++ w.free.slots := hw.slots.mem_iff.2 (List.mem_finRange i)
  rcases List.mem_append.1 hslot with hi | hfree
  · obtain ⟨id, hid⟩ := hw.named i hi
    refine ⟨id, hi, hid, ?_⟩
    rwa [hw.waiting_of_assigned hi hid]
  · rw [hw.unused i hfree] at hh
    exact absurd hh List.not_mem_nil

namespace Without

variable {v u : WaitLists} {gone more : Slot → Bool}

/-- If no active list has been left empty the lists are the same. -/
theorem of_inhabited (hqueue : ∀ i, (v.queueAt i).items = (w.queueAt i).items.filter (!gone ·))
    (hinhabited : ∀ i ∈ w.active, (v.queueAt i).items ≠ []) (hactive : v.active = w.active)
    (hfree : v.free = w.free) (hid : ∀ i, v.idAt i = w.idAt i) : w.Without gone v where
  queue := hqueue
  active := by
    rw [hactive]
    exact (List.filter_eq_self.2 fun i hi => decide_eq_true (hinhabited i hi)).symm
  free := by
    refine ⟨[], by rw [hfree, List.append_nil], List.Perm.of_eq ?_⟩
    refine (List.filter_eq_nil_iff.2 fun i hi hempty => ?_).symm
    exact hinhabited i hi (of_decide_eq_true hempty)
  idAt i id := by
    rw [hid, and_iff_left (hinhabited i)]

/-- Nothing changes if nobody who is gone waits. -/
theorem of_nobody (hw : w.Valid) (hnobody : ∀ id, ∀ h ∈ w.waiting id, gone h = false) :
    w.Without gone w := by
  refine of_inhabited (fun i => (List.filter_eq_self.2 fun h hh => ?_).symm) hw.inhabited rfl rfl
    fun _ => rfl
  obtain ⟨id, -, -, hwaiting⟩ := hw.exists_waiting hh
  rw [hnobody id h hwaiting]
  rfl

/-- The last process leaves an active list, which is freed. -/
theorem of_freed (hw : w.Ordered) (hi : i ∈ w.active)
    (hqueue : ∀ j, (v.queueAt j).items = (w.queueAt j).items.filter (!gone ·))
    (hnil : ∀ j ∈ w.active, (v.queueAt j).items = [] ↔ j = i)
    (hactive : v.active = w.active.erase i) (hfree : v.free.slots = w.free.slots ++ [i])
    (hid : ∀ j, v.idAt j = if j = i then none else w.idAt j) : w.Without gone v where
  queue := hqueue
  active := by
    rw [hactive, hw.nodup_active.erase_eq_filter]
    refine List.filter_congr fun j hj => ?_
    rw [Bool.eq_iff_iff, bne_iff_ne, decide_eq_true_iff, Ne, Ne, hnil j hj]
  free := by
    refine ⟨[i], hfree, (List.perm_ext_iff_of_nodup (List.nodup_singleton i)
      (hw.nodup_active.filter _)).2 fun j => ?_⟩
    rw [List.mem_singleton, List.mem_filter, decide_eq_true_iff]
    constructor
    · rintro rfl
      exact ⟨hi, (hnil j hi).2 rfl⟩
    · rintro ⟨hj, hq⟩
      exact (hnil j hj).1 hq
  idAt j id := by
    rw [hid]
    split
    · rename_i heq
      subst heq
      exact iff_of_false (Option.some_ne_none id).symm fun hand => hand.2 hi ((hnil j hi).2 rfl)
    · rename_i hne
      exact (and_iff_left fun hj => mt (hnil j hj).1 hne).symm

/-- One process leaves the list in which it stands, and it stands in no other. -/
theorem of_shrink {h : Slot} {rest : Queue Slot} (hw : w.Valid) (hi : i ∈ w.active)
    (hrest : rest.items = (w.queueAt i).items.erase h)
    (honly : ∀ j, i ≠ j → h ∉ (w.queueAt j).items) (hv : w.shrink i rest = .ok v) :
    w.Without (fun g => g = h) v := by
  have hqueue : ∀ j, ((w.setQueue i rest).queueAt j).items =
      (w.queueAt j).items.filter fun g => !decide (g = h) := by
    intro j
    rw [queueAt_setQueue]
    split
    · rename_i hij
      rw [← hij, hrest, (hw.nodup i hi).erase_eq_filter]
      rfl
    · rename_i hij
      refine (List.filter_eq_self.2 fun g hg => ?_).symm
      have hne : g ≠ h := fun heq => honly j hij (heq ▸ hg)
      rw [decide_eq_false hne]
      rfl
  have hothers : ∀ j ∈ w.active, i ≠ j → ((w.setQueue i rest).queueAt j).items ≠ [] := by
    intro j hj hij
    rw [queueAt_setQueue, if_neg hij]
    exact hw.inhabited j hj
  have hself : ((w.setQueue i rest).queueAt i).items = rest.items := by
    rw [queueAt_setQueue, if_pos rfl]
  unfold shrink at hv
  dsimp only at hv
  split at hv
  · rename_i hempty
    rw [(hw.toOrdered.setQueue hi).release_eq hi] at hv
    cases hv
    refine of_freed hw.toOrdered hi (fun j => ?_) (fun j hj => ?_) rfl rfl fun j => ?_
    · rw [queueAt_freed]
      exact hqueue j
    · rw [queueAt_freed]
      constructor
      · intro hq
        by_contra hne
        exact hothers j hj (Ne.symm hne) hq
      · rintro rfl
        exact hself.trans (List.isEmpty_iff.1 hempty)
    · split
      · rename_i hij
        subst hij
        unfold WaitLists.idAt freed
        rw [Table.get_modify, if_pos rfl]
      · rename_i hij
        rw [idAt_freed (Ne.symm hij), idAt_setQueue]
  · rename_i hsome
    cases hv
    refine of_inhabited hqueue (fun j hj => ?_) rfl rfl fun j => idAt_setQueue
    by_cases hij : i = j
    · subst hij
      rw [hself]
      exact fun hq => hsome (List.isEmpty_iff.2 hq)
    · exact hothers j hj hij

/-- What leaves a list that was emptied leaves nothing behind, and no list is filled again. -/
theorem trans (h : w.Without gone v) (h' : v.Without more u) :
    w.Without (fun g => gone g || more g) u := by
  have hqueue : ∀ i, (u.queueAt i).items = (v.queueAt i).items.filter (!more ·) := h'.queue
  have hnil : ∀ i, (v.queueAt i).items = [] → (u.queueAt i).items = [] := fun i hv => by
    rw [hqueue, hv, List.filter_nil]
  refine ⟨fun i => ?_, ?_, ?_, fun i id => ?_⟩
  · rw [hqueue, h.queue, List.filter_filter]
    refine List.filter_congr fun g _ => ?_
    rw [Bool.not_or, Bool.and_comm]
  · rw [h'.active, h.active, List.filter_filter]
    refine List.filter_congr fun i _ => ?_
    rw [Bool.eq_iff_iff, Bool.and_eq_true, decide_eq_true_iff, decide_eq_true_iff]
    exact ⟨fun hand => hand.1, fun hu => ⟨hu, mt (hnil i) hu⟩⟩
  · obtain ⟨emptied, hfree, hperm⟩ := h.free
    obtain ⟨emptied', hfree', hperm'⟩ := h'.free
    refine ⟨emptied ++ emptied', by rw [hfree', hfree, List.append_assoc], ?_⟩
    refine (hperm.append hperm').trans ?_
    rw [h.active, List.filter_filter]
    -- Of the lists that are empty in the end, some were so before.
    have hsplit := List.filter_append_perm (fun i => decide ((v.queueAt i).items = []))
      (w.active.filter fun i => (u.queueAt i).items = [])
    rw [List.filter_filter, List.filter_filter] at hsplit
    refine List.Perm.trans (List.Perm.of_eq ?_) hsplit
    congr 1
    · refine List.filter_congr fun i _ => ?_
      rw [Bool.eq_iff_iff, Bool.and_eq_true, decide_eq_true_iff, decide_eq_true_iff]
      exact ⟨fun hv => ⟨hv, hnil i hv⟩, fun hand => hand.1⟩
    · refine List.filter_congr fun i _ => ?_
      rw [Bool.and_comm, decide_not]
  · rw [h'.idAt, h.idAt, h.active, List.mem_filter, decide_eq_true_iff, and_assoc]
    refine and_congr_right fun _ => ⟨fun hand hi hu => ?_, fun hleft => ⟨fun hi hv => ?_, ?_⟩⟩
    · exact hand.2 ⟨hi, hand.1 hi⟩ hu
    · exact hleft hi (hnil i hv)
    · exact fun hi => hleft hi.1

end Without

/-- The semaphores on which somebody still waits keep their order. -/
theorem Valid.ids_eq_filter {v : WaitLists} (hw : w.Valid) (hv : v.Valid)
    (hsub : ∀ id, v.waiting id ≠ [] → w.waiting id ≠ []) :
    v.ids = w.ids.filter fun id => v.waiting id ≠ [] := by
  have hperm : v.ids.Perm (w.ids.filter fun id => v.waiting id ≠ []) := by
    refine (List.perm_ext_iff_of_nodup hv.nodup_ids (hw.nodup_ids.filter _)).2 fun id => ?_
    rw [List.mem_filter, decide_eq_true_iff, hv.mem_ids_iff, hw.mem_ids_iff]
    exact ⟨fun hid => ⟨hsub id hid, hid⟩, fun hand => hand.2⟩
  refine hperm.eq_of_pairwise (fun a b _ _ hab hba => ?_) hv.pairwise_ids
    (hw.pairwise_ids.filter _)
  exact absurd (Nat.lt_trans hab hba) (Nat.lt_irrefl _)

end WaitLists

end Nucleus
