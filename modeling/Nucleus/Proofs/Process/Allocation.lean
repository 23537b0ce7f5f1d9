import Nucleus.Proofs.Process.Table

/-!
# Handing out slots

Which slots of the process table are in use, and in which order the others were freed, can be told
from a record of what has been handed out and freed (`Dealing`), whatever has happened to the
descriptors in the meantime, also to those that nobody uses. The table keeps to the record: its free
list is in the order in which the slots were freed, so a slot in use is never handed out, and one
that is handed out has been free longest and is blank (`dealsFairly_of_run`).
-/

namespace Nucleus

/-- A slot has been handed out, or it has been freed. -/
inductive Dealing where
  | taken (h : Slot)
  | freed (h : Slot)
  deriving DecidableEq

namespace Dealing

/-- Whether a slot is in use after some dealings, latest first. -/
def inUse (h : Slot) : List Dealing → Bool
  | [] => false
  | taken g :: ds => g = h || inUse h ds
  | freed g :: ds => g ≠ h && inUse h ds

/-- The slots in the order in which they were freed: at the start all of them in ascending order,
and from then on each as often as it was freed. -/
def freedOrder : List Dealing → List Slot
  | [] => List.finRange maxProcesses
  | taken _ :: ds => freedOrder ds
  | freed h :: ds => freedOrder ds ++ [h]

end Dealing

/-- The slot `g` has been freed since `h` was freed last. -/
def FreedBefore (order : List Slot) (h g : Slot) : Prop :=
  ∃ earlier later, order = earlier ++ later ∧ h ∉ later ∧ g ∈ later

/-- An operation on the process table. The links of the tree and the descriptors may be changed in
slots that nobody uses. -/
inductive TableCall where
  | allocate
  | release (h : Slot)
  | attach (parent child : Slot)
  | detachOldest (parent : Slot)
  | detach (child : Slot)
  | edit (h : Slot) (f : Descriptor → Descriptor)

namespace TableCall

/-- What an operation answers, and what it makes of a table. -/
def run (t : ProcessTable) : TableCall → Except Abort (Option Slot × ProcessTable)
  | allocate =>
    match t.allocate with
    | none => .ok (none, t)
    | some (h, u) => .ok (some h, u)
  | release h => do return (none, ← t.release h)
  | attach parent child => .ok (none, t.attach parent child)
  | detachOldest parent =>
    match t.detachOldest parent with
    | none => .ok (none, t)
    | some (child, u) => .ok (some child, u)
  | detach child =>
    match t.detach? child with
    | none => .ok (none, t)
    | some u => .ok (some child, u)
  | edit h f => .ok (none, t.modify h f)

/-- The dealings after an operation with its answer. -/
def record (ds : List Dealing) : TableCall → Option Slot → List Dealing
  | allocate, some h => .taken h :: ds
  | release h, _ => .freed h :: ds
  | _, _ => ds

/-- Only a slot in use may be freed; everything else may be done at any time. -/
def Allowed (ds : List Dealing) : TableCall → Prop
  | release h => Dealing.inUse h ds = true
  | _ => True

end TableCall

/-- Operations on a new table, none of which frees a slot that is not in use, with what has been
handed out and freed. -/
inductive TableRun : List Dealing → ProcessTable → Prop
  | start : TableRun [] .empty
  | call {ds : List Dealing} {t u : ProcessTable} {answer : Option Slot} (hrun : TableRun ds t)
    (call : TableCall) (hallowed : call.Allowed ds) (h : call.run t = .ok (answer, u)) :
    TableRun (call.record ds answer) u

variable {ds : List Dealing} {t u : ProcessTable} {h g : Slot} {order : List Slot}
  {call : TableCall} {answer : Option Slot}

/-! ## The order of freeing -/

namespace FreedBefore

/-- A slot that is freed comes behind all others and does not change their order. -/
theorem append (hbefore : FreedBefore order h g) {i : Slot} (hi : h ≠ i) :
    FreedBefore (order ++ [i]) h g := by
  obtain ⟨earlier, later, rfl, hh, hg⟩ := hbefore
  refine ⟨earlier, later ++ [i], List.append_assoc _ _ _, ?_, List.mem_append_left _ hg⟩
  simp [hh, hi]

theorem append_self (order : List Slot) (hne : h ≠ g) : FreedBefore (order ++ [g]) h g :=
  ⟨order, [g], rfl, by simpa using hne, List.mem_singleton_self g⟩

/-- Slots that were freed once each have been freed in the order in which they are listed. -/
theorem pairwise_of_nodup (before : List Slot) {slots : List Slot} (hnodup : slots.Nodup) :
    slots.Pairwise (FreedBefore (before ++ slots)) := by
  induction slots generalizing before with
  | nil => exact .nil
  | cons h slots ih =>
    obtain ⟨hnot, hnodup⟩ := List.nodup_cons.1 hnodup
    have hshift : before ++ h :: slots = (before ++ [h]) ++ slots := by simp
    rw [hshift]
    refine List.pairwise_cons.2 ⟨fun g hg => ?_, ih (before ++ [h]) hnodup⟩
    exact ⟨before ++ [h], slots, rfl, hnot, hg⟩

end FreedBefore

/-! ## What every operation keeps -/

namespace ProcessTable

/-- A table keeps to the record of dealings. -/
structure KeepsTo (ds : List Dealing) (t : ProcessTable) : Prop where
  valid : t.Valid
  isUsed : ∀ h, t.isUsed h = Dealing.inUse h ds
  order : t.free.slots.Pairwise (FreedBefore (Dealing.freedOrder ds))

theorem keepsTo_empty : KeepsTo [] empty where
  valid := valid_empty
  isUsed := isUsed_empty
  order := FreedBefore.pairwise_of_nodup [] (List.nodup_finRange _)

namespace KeepsTo

/-- The record is not concerned with the descriptors. -/
theorem congr (ht : t.KeepsTo ds) (hinUse : u.inUse = t.inUse) (hfree : u.free = t.free) :
    u.KeepsTo ds where
  valid := ht.valid.congr hinUse hfree
  isUsed h := by
    unfold ProcessTable.isUsed
    rw [hinUse]
    exact ht.isUsed h
  order := hfree ▸ ht.order

theorem mem_free (ht : t.KeepsTo ds) : h ∈ t.free.slots ↔ Dealing.inUse h ds = false := by
  rw [ht.valid.mem_free, ht.isUsed]

/-- The slot that is handed out stands at the head of the free list. -/
theorem slots_of_allocate (h_some : t.allocate = some (h, u)) :
    t.free.slots = h :: u.free.slots := by
  unfold ProcessTable.allocate at h_some
  split at h_some
  · cases h_some
  · rename_i hpop
    cases h_some
    exact FreeList.pop_eq_some_iff.1 hpop

theorem allocate (ht : t.KeepsTo ds) (h_some : t.allocate = some (h, u)) :
    u.KeepsTo (.taken h :: ds) := by
  have hallocated := ht.valid.allocate h_some
  refine ⟨hallocated.valid, fun g => ?_, ?_⟩
  · rw [hallocated.isUsed, ht.isUsed]
    by_cases heq : h = g <;> simp [Dealing.inUse, heq]
  · exact (List.pairwise_cons.1 (slots_of_allocate h_some ▸ ht.order)).2

theorem release (ht : t.KeepsTo ds) (hh : Dealing.inUse h ds = true) :
    ∃ u, t.release h = .ok u ∧ u.KeepsTo (.freed h :: ds) := by
  obtain ⟨u, hu, hreleased⟩ := ht.valid.release ((ht.isUsed h).trans hh)
  have hne : ∀ g ∈ t.free.slots, g ≠ h := by
    rintro g hg rfl
    exact Bool.false_ne_true ((ht.mem_free.1 hg).symm.trans hh)
  refine ⟨u, hu, hreleased.valid, fun g => ?_, ?_⟩
  · rw [hreleased.isUsed, ht.isUsed]
    by_cases heq : h = g <;> simp [Dealing.inUse, heq]
  · rw [hreleased.free]
    refine List.pairwise_append.2 ⟨?_, List.pairwise_singleton _ _, fun g hg i hi => ?_⟩
    · exact ht.order.imp_of_mem fun hg _ hbefore => hbefore.append (hne _ hg)
    · rw [List.mem_singleton.1 hi]
      exact FreedBefore.append_self _ (hne g hg)

theorem detachOldest (ht : t.KeepsTo ds) (h_some : t.detachOldest h = some (g, u)) :
    u.KeepsTo ds := by
  unfold ProcessTable.detachOldest at h_some
  split at h_some
  · cases h_some
  · cases h_some
    exact ht.congr rfl rfl

theorem detach? (ht : t.KeepsTo ds) (h_some : t.detach? h = some u) : u.KeepsTo ds := by
  obtain ⟨parent, -, rfl⟩ := Option.map_eq_some_iff.1 h_some
  exact ht.congr rfl rfl

/-- No operation that is allowed breaks a check, and afterwards the table keeps to the record. -/
theorem run (ht : t.KeepsTo ds) (hallowed : call.Allowed ds) :
    ∃ answer u, call.run t = .ok (answer, u) ∧ u.KeepsTo (call.record ds answer) := by
  cases call with
  | allocate =>
    cases hallocate : t.allocate with
    | none => exact ⟨none, t, by simp only [TableCall.run, hallocate], ht⟩
    | some result =>
      obtain ⟨h, u⟩ := result
      exact ⟨some h, u, by simp only [TableCall.run, hallocate], ht.allocate hallocate⟩
  | release h =>
    obtain ⟨u, hu, hkeeps⟩ := ht.release hallowed
    exact ⟨none, u, by rw [TableCall.run, hu]; rfl, hkeeps⟩
  | attach parent child => exact ⟨none, _, rfl, ht.congr rfl rfl⟩
  | detachOldest parent =>
    cases hdetach : t.detachOldest parent with
    | none => exact ⟨none, t, by simp only [TableCall.run, hdetach], ht⟩
    | some result =>
      obtain ⟨child, u⟩ := result
      exact ⟨some child, u, by simp only [TableCall.run, hdetach], ht.detachOldest hdetach⟩
  | detach child =>
    cases hdetach : t.detach? child with
    | none => exact ⟨none, t, by simp only [TableCall.run, hdetach], ht⟩
    | some u => exact ⟨some child, u, by simp only [TableCall.run, hdetach], ht.detach? hdetach⟩
  | edit h f => exact ⟨none, _, rfl, ht.congr rfl rfl⟩

end KeepsTo

end ProcessTable

theorem TableRun.keepsTo (hrun : TableRun ds t) : t.KeepsTo ds := by
  induction hrun with
  | start => exact ProcessTable.keepsTo_empty
  | call _ call hallowed hcall ih =>
    obtain ⟨answer, u, hrun, hkeeps⟩ := ih.run hallowed
    rw [hcall] at hrun
    cases hrun
    exact hkeeps

/-! ## Computed runs -/

instance (ds : List Dealing) : (call : TableCall) → Decidable (call.Allowed ds)
  | .release h => inferInstanceAs (Decidable (Dealing.inUse h ds = true))
  | .allocate | .attach _ _ | .detachOldest _ | .detach _ | .edit _ _ => .isTrue trivial

/-- The record and the table after some operations, if all of them are allowed. -/
def replayTable (calls : List TableCall) (start : List Dealing × ProcessTable) :
    Option (List Dealing × ProcessTable) :=
  calls.foldlM (fun (ds, t) call =>
    if call.Allowed ds then
      match call.run t with
      | .ok (answer, u) => some (call.record ds answer, u)
      | .error _ => none
    else none) start

namespace TableRun

theorem replay {calls : List TableCall} {ds' : List Dealing} (hrun : TableRun ds t)
    (h : replayTable calls (ds, t) = some (ds', u)) : TableRun ds' u := by
  induction calls generalizing ds t with
  | nil =>
    cases h
    exact hrun
  | cons call calls ih =>
    obtain ⟨⟨ds₁, t₁⟩, hcall, hcalls⟩ := Option.bind_eq_some_iff.1 h
    dsimp only at hcall
    split at hcall
    · rename_i hallowed
      split at hcall
      · rename_i hstep
        cases hcall
        exact ih (hrun.call call hallowed hstep) hcalls
      · cases hcall
    · cases hcall

/-- What some operations on a new table are computed to lead to. -/
theorem exists_replay {p : List Dealing → ProcessTable → Bool} (calls : List TableCall)
    (h : (replayTable calls ([], .empty)).any (fun (ds, t) => p ds t) = true) :
    ∃ ds t, TableRun ds t ∧ p ds t = true := by
  obtain ⟨⟨ds, t⟩, hcalls, hp⟩ := (Option.any_eq_true _ _).1 h
  exact ⟨ds, t, start.replay hcalls, hp⟩

end TableRun

/-! ## What the record tells -/

namespace ProcessTable

/-- What can be told of a table from the record of what has been handed out and freed. -/
structure DealsFairly (ds : List Dealing) (t : ProcessTable) : Prop where
  /-- The free list holds the slots that are not in use, each once, in the order of freeing. -/
  mem_free : ∀ h, h ∈ t.free.slots ↔ Dealing.inUse h ds = false
  nodup : t.free.slots.Nodup
  order : t.free.slots.Pairwise (FreedBefore (Dealing.freedOrder ds))
  isUsed : ∀ h, t.isUsed h = Dealing.inUse h ds
  usedCount : t.usedCount = countSlots (Dealing.inUse · ds)
  /-- Only a table with every slot in use hands out none. -/
  full : t.allocate = none ↔ countSlots (Dealing.inUse · ds) = maxProcesses
  /-- A slot that is handed out was not in use and had been free longest, it is blank, and no other
  descriptor has changed. -/
  handed : ∀ h u, t.allocate = some (h, u) → Dealing.inUse h ds = false ∧
    (∀ g, g ≠ h → Dealing.inUse g ds = false → FreedBefore (Dealing.freedOrder ds) h g) ∧
    u.get h = .blank ∧ ∀ g, g ≠ h → u.get g = t.get g
  /-- Whatever is allowed breaks no check; in particular there is room for a slot that is freed. -/
  runs : ∀ call : TableCall, call.Allowed ds → ∃ answer u, call.run t = .ok (answer, u)
  doubleFree : ∀ h, Dealing.inUse h ds = false → t.release h = .error .doubleFree

theorem KeepsTo.handed (ht : t.KeepsTo ds) (h_some : t.allocate = some (h, u)) :
    Dealing.inUse h ds = false ∧
      (∀ g, g ≠ h → Dealing.inUse g ds = false → FreedBefore (Dealing.freedOrder ds) h g) ∧
      u.get h = .blank ∧ ∀ g, g ≠ h → u.get g = t.get g := by
  have hallocated := ht.valid.allocate h_some
  have hslots := KeepsTo.slots_of_allocate h_some
  refine ⟨(ht.isUsed h).symm.trans hallocated.wasFree, fun g hne hg => ?_, ?_, fun g hne => ?_⟩
  · have hmem := ht.mem_free.2 hg
    rw [hslots] at hmem
    have hrest : g ∈ u.free.slots := (List.mem_cons.1 hmem).resolve_left hne
    exact (List.pairwise_cons.1 (hslots ▸ ht.order)).1 g hrest
  · rw [hallocated.get, if_pos rfl]
  · rw [hallocated.get, if_neg (Ne.symm hne)]

theorem KeepsTo.dealsFairly (ht : t.KeepsTo ds) : t.DealsFairly ds where
  mem_free _ := ht.mem_free
  nodup := ht.valid.nodup
  order := ht.order
  isUsed := ht.isUsed
  usedCount := by rw [usedCount_eq, funext ht.isUsed]
  full := by
    rw [ht.valid.allocate_eq_none_iff, countSlots_eq_maxProcesses_iff]
    exact forall_congr' fun h => by rw [ht.isUsed]
  handed _ _ := ht.handed
  runs _ hallowed := by
    obtain ⟨answer, u, hrun, -⟩ := ht.run hallowed
    exact ⟨answer, u, hrun⟩
  doubleFree h hh := if_neg (by rw [ht.isUsed, hh]; exact Bool.false_ne_true)

/-- Whatever operations there have been, as long as no slot was freed that was not in use, the table
deals with its slots as the record of its dealings says. -/
theorem dealsFairly_of_run (hrun : TableRun ds t) : t.DealsFairly ds := hrun.keepsTo.dealsFairly

/-- A slot that was used and freed, and was given a child while nobody used it, is blank when it is
handed out again after all others. Until then it is not freed a second time. -/
theorem dealsFairly_of_run_recycled : ∃ ds t u, TableRun ds t ∧ (t.get 0).usedTime = 42 ∧
    t.children 0 = [3] ∧ t.release 0 = .error .doubleFree ∧ t.allocate = some (0, u) ∧
    u.get 0 = .blank := by
  obtain ⟨ds, t, hrun, htest⟩ := TableRun.exists_replay
    (p := fun ds t => Dealing.inUse 0 ds = false ∧ (t.get 0).usedTime = 42 ∧ t.children 0 = [3] ∧
      t.allocate.any (·.1 = 0))
    ([.allocate, .edit 0 (·.charge 42), .release 0, .attach 0 3] ++ List.replicate 19 .allocate)
    (by decide +kernel)
  obtain ⟨hfree, hused, hchildren, hallocate⟩ := of_decide_eq_true htest
  obtain ⟨⟨h, u⟩, hu, hslot⟩ := (Option.any_eq_true _ _).1 hallocate
  obtain rfl : h = 0 := of_decide_eq_true hslot
  have hdeals := dealsFairly_of_run hrun
  exact ⟨ds, t, u, hrun, hused, hchildren, hdeals.doubleFree 0 hfree, hu,
    (hdeals.handed 0 u hu).2.2.1⟩

end ProcessTable

end Nucleus
