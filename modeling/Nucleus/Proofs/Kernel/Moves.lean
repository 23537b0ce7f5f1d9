import Nucleus.Kernel.Decision
import Nucleus.Proofs.Kernel.Accounting

/-!
# Moving a process

A process leaves one place and joins another at its tail: it blocks, it is released, it is
dispatched, or its quantum expires. `Kernel.Moved` describes such a step, and the books agree after
it if they did before (`Accounted.moved`).
-/

namespace Nucleus

/-! ## Counters -/

namespace Word

theorem succ_of_lt {w : Word} (h : w.toNat + 1 < UInt32.size) :
    succ w = .ok (w + 1) ∧ (w + 1).toNat = w.toNat + 1 := by
  have hne : w ≠ allOnes := by
    rintro rfl
    exact Nat.lt_irrefl _ h
  refine ⟨if_neg hne, ?_⟩
  rw [UInt32.toNat_add]
  exact Nat.mod_eq_of_lt h

theorem pred_of_pos {w : Word} (h : 0 < w.toNat) :
    pred w = .ok (w - 1) ∧ (w - 1).toNat + 1 = w.toNat := by
  have hne : w ≠ 0 := by
    rintro rfl
    exact Nat.lt_irrefl _ h
  have hle : (1 : Word) ≤ w := UInt32.le_iff_toNat_le.2 h
  refine ⟨if_neg hne, ?_⟩
  rw [UInt32.toNat_sub_of_le w 1 hle]
  exact Nat.sub_add_cancel h

end Word

/-! ## Changing places -/

/-- Only what the descriptor of `h` says about its place has changed: it stands at `q` now. -/
structure ProcessTable.Relabelled (t : ProcessTable) (h : Slot) (q : Place) (u : ProcessTable) :
    Prop where
  inUse : u.inUse = t.inUse
  free : u.free = t.free
  descriptor : ∀ g, u.get g =
    if h = g then { t.get h with waitsOn := q.mark, wait := q.wait } else t.get g

/-- No descriptor changes otherwise. -/
theorem ProcessTable.Relabelled.exists_get {t u : ProcessTable} {h : Slot} {q : Place}
    (hu : t.Relabelled h q u) (g : Slot) :
    ∃ waitsOn wait, u.get g = { t.get g with waitsOn, wait } := by
  rw [hu.descriptor]
  split
  · rename_i heq
    rw [heq]
    exact ⟨_, _, rfl⟩
  · exact ⟨_, _, rfl⟩

/-- A process that has joined or left a wait list changes its place if it changes its wait too. -/
theorem WaitRoom.Requeued.relabelled {r room : WaitRoom} {id : SemaphoreId} {queue : List Slot}
    {h : Slot} {q : Place} (hroom : r.Requeued id queue h q.mark room) :
    r.processes.Relabelled h q (room.processes.modify h ({ · with wait := q.wait })) where
  inUse := by
    rw [hroom.processes]
    rfl
  free := by
    rw [hroom.processes]
    rfl
  descriptor := fun g => by
    rw [hroom.processes]
    simp only [ProcessTable.get_modify, if_true]
    split
    · rfl
    · rfl

namespace Kernel

open Outcome

variable {k k' : Kernel} {h g : Slot} {p q : Place} {id : SemaphoreId} {wait : WaitKind}

theorem softUp_of_le (hk : k.softCount.toNat ≤ maxProcesses) :
    ∃ n, k.softUp = .ok { k with softCount := n } ∧ n.toNat = k.softCount.toNat + 1 := by
  obtain ⟨hsucc, hn⟩ := Word.succ_of_lt (Nat.lt_of_le_of_lt (Nat.succ_le_succ hk) (by decide))
  refine ⟨_, ?_, hn⟩
  simp only [softUp, hsucc]
  rfl

theorem softDown_of_pos (hk : 0 < k.softCount.toNat) :
    ∃ n, k.softDown = .ok { k with softCount := n } ∧ n.toNat + 1 = k.softCount.toNat := by
  obtain ⟨hpred, hn⟩ := Word.pred_of_pos hk
  refine ⟨_, ?_, hn⟩
  simp only [softDown, hpred]
  rfl

theorem makeReady_of_not_mem (hh : h ∉ k.ready.items) :
    k.makeReady h = .ok { k with ready := ⟨k.ready.items ++ [h]⟩ } := by
  simp only [makeReady, Queue.enqueue_of_not_mem hh]
  rfl

/-! ## What a move preserves -/

/-- `h` goes from one place to the tail of another. Only the queues change, what the descriptor of
`h` says about its place, and the count of the processes that wait for a device or the clock. -/
structure Moved (k : Kernel) (h : Slot) (p q : Place) (k' : Kernel) : Prop
    extends k.processes.Relabelled h q k'.processes where
  waits : k'.waits.Valid
  leaves : k'.standing p = (k.standing p).erase h
  joins : k'.standing q = k.standing q ++ [h]
  others : ∀ r, r ≠ p → r ≠ q → k'.standing r = k.standing r
  pids : k'.pids = k.pids
  lastPid : k'.lastPid = k.lastPid
  live : k'.liveCount = k.liveCount
  soft : k'.softCount.toNat + p.wait.isSoft.toNat = k.softCount.toNat + q.wait.isSoft.toNat

namespace Moved

theorem isUsed (hm : k.Moved h p q k') (g : Slot) :
    k'.processes.isUsed g = k.processes.isUsed g := by
  simp only [ProcessTable.isUsed, hm.inUse]

theorem sameLinks (hm : k.Moved h p q k') (g : Slot) :
    k.processes.SameLinks k'.processes g := by
  obtain ⟨waitsOn, wait, hget⟩ := hm.exists_get g
  refine ⟨?_, ?_, ?_⟩
  · rw [ProcessTable.pidAt, hget]
    rfl
  · rw [ProcessTable.parentAt, hget]
    rfl
  · rw [ProcessTable.children, hget]
    rfl

theorem sameHandlers (hm : k.Moved h p q k') (g : Slot) :
    (k.processes.get g).SameHandlers (k'.processes.get g) := by
  obtain ⟨waitsOn, wait, hget⟩ := hm.exists_get g
  rw [hget]
  exact ⟨rfl, rfl⟩

theorem count_of_ne (hm : k.Moved h p q k') (hg : h ≠ g) (r : Place) :
    (k'.standing r).count g = (k.standing r).count g := by
  by_cases hrp : r = p
  · rw [hrp, hm.leaves, List.count_erase_of_ne (Ne.symm hg)]
  · by_cases hrq : r = q
    · have hsingle : [h].count g = 0 :=
        List.count_eq_zero_of_not_mem fun hmem => hg (List.mem_singleton.1 hmem).symm
      rw [hrq, hm.joins, List.count_append, hsingle, Nat.add_zero]
    · rw [hm.others r hrp hrq]

/-- The process stands where it went, and only there. -/
theorem at_new (hm : k.Moved h p q k') (hp : k.At h p) (hne : p ≠ q) : k'.At h q := by
  refine ⟨fun r => ?_, ?_, ?_⟩
  · by_cases hrp : r = p
    · rw [hrp, hm.leaves, List.count_erase_self, hp.count, if_pos rfl, if_neg hne]
    · by_cases hrq : r = q
      · rw [hrq, hm.joins, List.count_append, hp.count, if_neg (Ne.symm hne), if_pos rfl,
          List.count_singleton_self]
      · rw [hm.others r hrp hrq, hp.count, if_neg hrp, if_neg hrq]
  · rw [hm.descriptor, if_pos rfl]
  · rw [hm.descriptor, if_pos rfl]

theorem at_of_ne (hm : k.Moved h p q k') (hg : h ≠ g) {r : Place} (hr : k.At g r) :
    k'.At g r := by
  refine ⟨fun s => ?_, ?_, ?_⟩
  · rw [hm.count_of_ne hg]
    exact hr.count s
  · rw [hm.descriptor, if_neg hg]
    exact hr.mark
  · rw [hm.descriptor, if_neg hg]
    exact hr.wait

end Moved

/-- The books agree after a process has moved. -/
theorem Accounted.moved (hk : k.Accounted) (hp : k.At h p) (hne : p ≠ q)
    (hm : k.Moved h p q k') : k'.Accounted where
  table := hk.table.congr hm.inUse hm.free
  waits := hm.waits
  linked := hk.linked.congr hm.isUsed hm.sameLinks
  indexed := hk.indexed.congr hm.isUsed (fun g => (hm.sameLinks g).pid) hm.pids hm.lastPid
  placed := fun {g} hg => by
    rw [hm.isUsed] at hg
    by_cases heq : h = g
    · rw [← heq]
      exact ⟨q, hm.at_new hp hne⟩
    · obtain ⟨r, hr⟩ := hk.placed hg
      exact ⟨r, hm.at_of_ne heq hr⟩
  absent := fun {g} hg r hmem => by
    rw [hm.isUsed] at hg
    have heq : h ≠ g := by
      rintro rfl
      exact hk.absent hg p hp.mem
    rw [← List.count_pos_iff, hm.count_of_ne heq, List.count_pos_iff] at hmem
    exact hk.absent hg r hmem
  live := by
    rw [hm.live, hk.live]
    exact countSlots_congr fun g => (hm.isUsed g).symm
  soft := by
    have hh := hk.used_of_mem hp.mem
    have hupdate := countSlots_update (h := h)
      (p := fun g => k.processes.isUsed g && (k.processes.get g).wait.isSoft)
      (q := fun g => k'.processes.isUsed g && (k'.processes.get g).wait.isSoft) fun g hg => by
        rw [hm.isUsed, hm.descriptor, if_neg (Ne.symm hg)]
    simp only [hm.isUsed, hh, Bool.true_and, hp.wait, (hm.at_new hp hne).wait] at hupdate
    have hsoft := hm.soft
    rw [hk.soft] at hsoft
    simp only [hm.isUsed]
    omega

theorem Sound.moved (hk : k.Sound) (hp : k.At h p) (hne : p ≠ q) (hm : k.Moved h p q k') :
    k'.Sound where
  toAccounted := hk.toAccounted.moved hp hne hm
  registered := fun {g} hg => by
    rw [hm.isUsed] at hg
    exact (hk.registered hg).congr (hm.sameHandlers g)

/-! ## The moves of the nucleus -/

/-- The descriptor of a process says all there is to say about its place. -/
theorem At.descriptor_eq (hp : k.At h p) :
    { k.processes.get h with waitsOn := p.mark, wait := p.wait } = k.processes.get h := by
  rw [← hp.mark, ← hp.wait]

theorem moved_of_enter {room : WaitRoom} {n : Word} (hh : k.current = some h)
    (hroom : k.toWaitRoom.Requeued id (k.waits.waiting id ++ [h]) h (some id) room)
    (hn : n.toNat = k.softCount.toNat + id.waitKind.isSoft.toNat) :
    k.Moved h .processor (.waitList id)
      { ({ k with toWaitRoom := room }.modify h ({ · with wait := id.waitKind })) with
        softCount := n, current := none } where
  toRelabelled := WaitRoom.Requeued.relabelled (q := .waitList id) hroom
  waits := hroom.waits
  leaves := by
    simp only [standing, hh]
    exact (List.erase_cons_head h []).symm
  joins := by
    unfold standing
    dsimp only [modify]
    rw [hroom.waiting, if_pos rfl]
  others := fun r hrp hrq => by
    cases r with
    | processor => exact absurd rfl hrp
    | ready => rfl
    | waitList other =>
      unfold standing
      dsimp only [modify]
      rw [hroom.waiting, if_neg fun heq => hrq (congrArg Place.waitList heq)]
  pids := rfl
  lastPid := rfl
  live := rfl
  soft := hn

/-- The running process blocks on a semaphore that has a wait list or can get one. -/
theorem suspend_finishes (hk : k.Accounted) (hh : k.current = some h)
    (hroom : k.waits.waiting id ≠ [] ∨ k.waits.free.slots ≠ []) :
    (suspend id id.waitKind k).Finishes fun _ k' => k.Moved h .processor (.waitList id) k' := by
  have hout : h ∉ k.waits.waiting id := fun hmem =>
    Place.noConfusion ((hk.at_processor hh).mem_iff (q := .waitList id) |>.1 hmem)
  unfold suspend WaitRoom.onKernel Finishes
  rw [Action.ends_bind, Action.ends_look, hh]
  simp only [Action.ends_bind, Action.ends_within, Action.ends_change]
  refine (WaitRoom.enter_finishes hk.waits hroom hout).ends fun _ room hs => ?_
  split
  · rename_i hsoft
    obtain ⟨n, hn, hcount⟩ := softUp_of_le
      (k := { k with toWaitRoom := room }.modify h ({ · with wait := id.waitKind }))
      hk.softCount_le
    rw [Action.ends_bind]
    refine Action.ends_attempt_ok hn (moved_of_enter hh hs ?_)
    rw [hcount, hsoft]
    rfl
  · rename_i hsoft
    refine moved_of_enter hh hs ?_
    rw [Bool.eq_false_iff.2 hsoft]
    rfl

/-- The running process blocks on a semaphore, unless no wait list is left for it. -/
theorem suspend_ends (hk : k.Accounted) (hh : k.current = some h) :
    (suspend id id.waitKind k).Ends (fun _ k' => k.Moved h .processor (.waitList id) k')
      (fun c k' => c = .semaphorePoolExhausted ∧ k' = k) (fun _ => False) := by
  by_cases hroom : k.waits.waiting id ≠ [] ∨ k.waits.free.slots ≠ []
  · exact (suspend_finishes hk hh hroom).ends fun _ _ hm => hm
  · obtain ⟨hq, hfree⟩ := not_or.1 hroom
    unfold suspend WaitRoom.onKernel
    rw [Action.ends_bind, Action.ends_look, hh]
    simp only [Action.ends_bind, Action.ends_within]
    rw [WaitRoom.enter_of_exhausted hk.waits (not_not.1 hq) (not_not.1 hfree)]
    exact ⟨rfl, rfl⟩

/-- Nobody is released from a semaphore on which nobody waits. -/
theorem wakeNext_of_empty (hq : k.waits.waiting id = []) : wakeNext id k = .ok none k [] := by
  simp only [wakeNext, WaitRoom.onKernel, Action.bind_apply, Action.within,
    WaitRoom.callNext_of_empty hq]
  rfl

theorem moved_of_callNext {room : WaitRoom} {n : Word} {rest : List Slot}
    (hq : k.waits.waiting id = h :: rest) (hroom : k.toWaitRoom.Requeued id rest h none room)
    (hn : n.toNat + id.waitKind.isSoft.toNat = k.softCount.toNat) :
    k.Moved h (.waitList id) .ready
      { ({ k with toWaitRoom := room }.modify h ({ · with wait := .none })) with
        softCount := n, ready := ⟨k.ready.items ++ [h]⟩ } where
  toRelabelled := WaitRoom.Requeued.relabelled (q := .ready) hroom
  waits := hroom.waits
  leaves := by
    unfold standing
    dsimp only [modify]
    rw [hroom.waiting, if_pos rfl, hq, List.erase_cons_head]
  joins := rfl
  others := fun r hrp hrq => by
    cases r with
    | processor => rfl
    | ready => exact absurd rfl hrq
    | waitList other =>
      unfold standing
      dsimp only [modify]
      rw [hroom.waiting, if_neg fun heq => hrp (congrArg Place.waitList heq)]
  pids := rfl
  lastPid := rfl
  live := rfl
  soft := hn

/-- The process that has waited longest on a semaphore joins the ready queue. -/
theorem wakeNext_finishes {rest : List Slot} (hk : k.Accounted)
    (hq : k.waits.waiting id = h :: rest) :
    (wakeNext id k).Finishes fun a k' => a = some h ∧ k.Moved h (.waitList id) .ready k' := by
  have hmem : h ∈ k.waits.waiting id := hq ▸ List.mem_cons_self
  have hat : k.At h (.waitList id) := hk.at_of_mem hmem
  have hout : h ∉ k.ready.items := fun hmem =>
    Place.noConfusion (hat.mem_iff (q := .ready) |>.1 hmem)
  unfold wakeNext WaitRoom.onKernel
  unfold Finishes
  simp only [Action.ends_bind, Action.ends_within]
  refine (WaitRoom.callNext_finishes hk.waits hq).ends ?_
  rintro _ room ⟨rfl, hs⟩
  have hwait : (room.processes.get h).wait = id.waitKind := by
    rw [hs.processes, ProcessTable.get_modify, if_pos rfl]
    exact hat.wait
  simp only [Action.ends_bind, Action.ends_look, hwait]
  split
  · rename_i hsoft
    have hpos : 0 < k.softCount.toNat :=
      hk.softCount_pos (hk.used_of_mem hat.mem) (by rw [hat.wait]; exact hsoft)
    obtain ⟨n, hn, hcount⟩ := softDown_of_pos (k := { k with toWaitRoom := room }) hpos
    rw [Action.ends_bind]
    refine Action.ends_attempt_ok hn ?_
    simp only [Action.ends_bind, Action.ends_change, Action.ends_pure]
    refine Action.ends_attempt_ok (makeReady_of_not_mem hout) ⟨trivial, moved_of_callNext hq hs ?_⟩
    rw [hsoft]
    exact hcount
  · rename_i hsoft
    simp only [Action.ends_bind, Action.ends_change, Action.ends_pure]
    refine Action.ends_attempt_ok (makeReady_of_not_mem hout) ⟨trivial, moved_of_callNext hq hs ?_⟩
    rw [Bool.eq_false_iff.2 hsoft]
    rfl

/-- The running process goes back to the ready queue. -/
theorem moved_of_expiry (hk : k.Accounted) (hh : k.current = some h) :
    k.Moved h .processor .ready
      { k with current := none, ready := ⟨k.ready.items ++ [h]⟩ } where
  inUse := rfl
  free := rfl
  descriptor := fun g => by
    split
    · rename_i heq
      subst heq
      exact (hk.at_processor hh).descriptor_eq.symm
    · rfl
  waits := hk.waits
  leaves := by
    simp only [standing, hh]
    exact (List.erase_cons_head h []).symm
  joins := rfl
  others := fun r hrp hrq => by
    cases r with
    | processor => exact absurd rfl hrp
    | ready => exact absurd rfl hrq
    | waitList other => rfl
  pids := rfl
  lastPid := rfl
  live := rfl
  soft := rfl

/-- The head of the ready queue gets the processor. -/
theorem moved_of_dispatch {rest : Queue Slot} (hk : k.Accounted) (hcurrent : k.current = none)
    (hready : k.ready.items = h :: rest.items) :
    k.Moved h .ready .processor { k with ready := rest, current := some h } where
  inUse := rfl
  free := rfl
  descriptor := fun g => by
    have hmem : h ∈ k.ready.items := hready ▸ List.mem_cons_self
    split
    · rename_i heq
      subst heq
      exact (hk.at_of_mem (p := .ready) hmem).descriptor_eq.symm
    · rfl
  waits := hk.waits
  leaves := by
    simp only [standing, hready, List.erase_cons_head]
  joins := by
    simp only [standing, hcurrent]
    rfl
  others := fun r hrp hrq => by
    cases r with
    | processor => exact absurd rfl hrq
    | ready => exact absurd rfl hrp
    | waitList other => rfl
  pids := rfl
  lastPid := rfl
  live := rfl
  soft := rfl

end Kernel

end Nucleus
