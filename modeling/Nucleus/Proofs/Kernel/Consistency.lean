import Nucleus.Kernel.Consistency
import Nucleus.Proofs.Kernel.Accounting

/-!
# Consistency

What the invariant says of the books, and that the check of consistency therefore succeeds. The
check is weaker: it does not look for a waiting process in the wait list that its descriptor names.
-/

namespace Nucleus.Kernel

variable {k : Kernel} {h : Slot} {p : Place}

/-- The books balance: each count is what it counts, the pid index names the live processes, each
of them stands at one place and is linked both ways with its relatives. -/
structure Balanced (k : Kernel) : Prop where
  liveCount : k.liveCount.toNat = k.processes.usedCount
  pidCount : k.pids.length = k.processes.usedCount
  softCount : k.softCount.toNat =
    k.processes.used.countP fun h => (k.processes.get h).wait.isSoft
  mem_pids : ∀ pid h, (pid, h) ∈ k.pids.toList ↔ k.processes.isUsed h = true ∧ k.pidAt h = pid
  lookup : ∀ pid h,
    k.pids.lookup pid = some h ↔ k.processes.isUsed h = true ∧ k.pidAt h = pid
  distinct : ∀ h g, k.processes.isUsed h = true → k.processes.isUsed g = true →
    k.pidAt h = k.pidAt g → h = g
  placed : ∀ h, k.processes.isUsed h = true → ∃ p, k.At h p
  absent : ∀ h, k.processes.isUsed h = false → ∀ p, h ∉ k.standing p
  linked : ∀ h g, k.processes.isUsed h = true → k.processes.isUsed g = true →
    ((k.processes.get h).parent = some g ↔ h ∈ k.processes.children g)
  parent : ∀ h g, k.processes.isUsed h = true → (k.processes.get h).parent = some g →
    k.processes.isUsed g = true ∧ k.pidAt g < k.pidAt h
  children : ∀ h g, k.processes.isUsed h = true → g ∈ k.processes.children h →
    k.processes.isUsed g = true
  siblings : ∀ h, k.processes.isUsed h = true → (k.processes.children h).Nodup
  consistent : k.isConsistent = true

theorem countP_used (k : Kernel) (p : Slot → Bool) :
    k.processes.used.countP p = countSlots fun h => k.processes.isUsed h && p h := by
  simp only [ProcessTable.used, countSlots, List.countP_filter]
  refine List.countP_congr fun h _ => ?_
  rw [Bool.and_comm]

theorem At.waitsOn_isSome_iff (hp : k.At h p) :
    (k.processes.get h).waitsOn.isSome = true ↔ ∃ id, p = .waitList id := by
  rw [hp.mark]
  cases p with
  | processor => simp [Place.mark]
  | ready => simp [Place.mark]
  | waitList id => simp [Place.mark]

namespace Accounted

/-- The wait lists together hold the waiting processes, each once. -/
theorem perm_waiting (hk : k.Accounted) :
    (k.waits.ids.flatMap k.waits.waiting).Perm
      (k.processes.used.filter fun h => (k.processes.get h).waitsOn.isSome) := by
  refine (List.perm_ext_iff_of_nodup ?_ (k.processes.nodup_used.filter _)).2 fun h => ?_
  · refine List.nodup_flatMap.2 ⟨fun id _ => hk.nodup_standing (.waitList id), ?_⟩
    refine hk.waits.pairwise_ids.imp ?_
    intro a b hab h ha hb
    have heq := ((hk.at_of_mem (p := .waitList a) ha).mem_iff (q := .waitList b)).1 hb
    obtain rfl := Place.waitList.inj heq
    exact Nat.lt_irrefl _ hab
  · rw [List.mem_flatMap, List.mem_filter, ProcessTable.mem_used]
    constructor
    · rintro ⟨id, -, hmem⟩
      have hat := hk.at_of_mem (p := .waitList id) hmem
      exact ⟨hk.used_of_mem hat.mem, hat.waitsOn_isSome_iff.2 ⟨id, rfl⟩⟩
    · rintro ⟨hused, hsome⟩
      obtain ⟨p, hat⟩ := hk.placed hused
      obtain ⟨id, rfl⟩ := hat.waitsOn_isSome_iff.1 hsome
      exact ⟨id, hk.waits.mem_ids_iff.2 (List.ne_nil_of_mem hat.mem), hat.mem⟩

theorem countsAgree (hk : k.Accounted) : k.countsAgree = true := by
  have hlive : k.liveCount.toNat = k.processes.used.length :=
    hk.live.trans k.processes.usedCount_eq.symm
  have hpids : k.pids.length = k.processes.used.length :=
    hk.indexed.length_pids.trans k.processes.usedCount_eq.symm
  have hsoft : k.softCount.toNat =
      k.processes.used.countP fun h => (k.processes.get h).wait.isSoft :=
    hk.soft.trans (k.countP_used _).symm
  have hwaiting : (k.waits.ids.flatMap k.waits.waiting).length =
      k.processes.used.countP fun h => (k.processes.get h).waitsOn.isSome := by
    rw [hk.perm_waiting.length_eq, List.countP_eq_length_filter]
  unfold Kernel.countsAgree
  simp only [List.countP_map, Bool.and_eq_true, beq_iff_eq]
  exact ⟨⟨⟨hlive, hpids⟩, hsoft⟩, hwaiting⟩

theorem isPlaced (hk : k.Accounted) (hh : k.processes.isUsed h = true) :
    k.isPlaced h = true := by
  obtain ⟨p, hat⟩ := hk.placed hh
  have hcurrent : (k.current == some h) = decide (p = .processor) := by
    rw [Bool.eq_iff_iff, beq_iff_eq, decide_eq_true_iff]
    exact Option.mem_toList.symm.trans ((hat.mem_iff (q := .processor)).trans eq_comm)
  have hready : k.ready.contains h = decide (p = .ready) := by
    unfold Queue.contains
    rw [Bool.eq_iff_iff, decide_eq_true_iff, decide_eq_true_iff]
    exact (hat.mem_iff (q := .ready)).trans eq_comm
  unfold Kernel.isPlaced
  dsimp only
  rw [hat.mark, hat.wait, hcurrent, hready]
  cases p with
  | processor => rfl
  | ready => rfl
  | waitList id =>
    have hpos : 0 < k.waiterCount id := List.length_pos_of_mem hat.mem
    cases id <;> simp [Place.mark, Place.wait, SemaphoreId.waitKind, hpos]

theorem isLinked (hk : k.Accounted) (hh : k.processes.isUsed h = true) :
    k.isLinked h = true := by
  unfold Kernel.isLinked
  simp only [Bool.and_eq_true, Option.all_eq_true, List.all_eq_true, beq_iff_eq]
  constructor
  · intro p hp
    obtain ⟨hused, hmem⟩ := hk.linked.parent hh hp
    exact ⟨hused, List.contains_iff_mem.2 hmem⟩
  · intro c hc
    exact (hk.linked.child hh hc).2

/-- The check of consistency succeeds. -/
theorem isConsistent (hk : k.Accounted) : k.isConsistent = true := by
  unfold Kernel.isConsistent
  simp only [Bool.and_eq_true, List.all_eq_true, Option.all_eq_true, beq_iff_eq]
  refine ⟨⟨⟨hk.countsAgree, ?_⟩, ?_⟩, ?_⟩
  · intro h hh
    have hused := ProcessTable.mem_used.1 hh
    exact ⟨⟨hk.indexed.lookup_eq_some_iff.2 ⟨hused, rfl⟩, hk.isPlaced hused⟩, hk.isLinked hused⟩
  · intro h hh
    exact hk.used_of_mem (p := .ready) hh
  · intro h hh
    exact hk.used_of_current hh

theorem balanced (hk : k.Accounted) : k.Balanced where
  liveCount := hk.live.trans k.processes.usedCount_eq.symm
  pidCount := hk.indexed.length_pids.trans k.processes.usedCount_eq.symm
  softCount := hk.soft.trans (k.countP_used _).symm
  mem_pids := fun _ _ => hk.indexed.mem_iff
  lookup := fun _ _ => hk.indexed.lookup_eq_some_iff
  distinct := fun _ _ hh hg => hk.indexed.pidAt_injective hh hg
  placed := fun _ hh => hk.placed hh
  absent := fun _ hh => hk.absent hh
  linked := fun h g hh hg =>
    ⟨fun hp => (hk.linked.parent hh hp).2, fun hc => (hk.linked.child hg hc).2⟩
  parent := fun h g hh hp => by
    obtain ⟨hg, hmem⟩ := hk.linked.parent hh hp
    exact ⟨hg, hk.linked.later hg hmem⟩
  children := fun h g hh hc => (hk.linked.child hh hc).1
  siblings := fun h hh => by
    refine (hk.linked.ascending hh).imp ?_
    rintro a b hlt rfl
    exact UInt32.lt_irrefl _ hlt
  consistent := hk.isConsistent

end Accounted

end Nucleus.Kernel
