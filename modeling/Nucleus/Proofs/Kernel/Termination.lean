import Nucleus.Kernel.Family
import Nucleus.Proofs.Kernel.Moves

/-!
# Terminating a family

`retire` removes one process from the books if it has no children (`retire_finishes`). A process is
terminated with its whole family, children before parents, so each member has lost its children by
the time it is retired; what is left is described by `Kernel.Dismissed`.
-/

namespace Nucleus.Kernel

open Outcome

variable {k k' k'' : Kernel} {h g : Slot} {p : Place} {id : SemaphoreId} {hs : List Slot}
  {pid : Pid}

/-! ## Leaving a queue -/

/-- `h` stands in no queue any more, and it is no longer counted among the processes that wait for a
device or the clock. -/
structure Withdrawn (k : Kernel) (h : Slot) (k' : Kernel) : Prop where
  inUse : k'.processes.inUse = k.processes.inUse
  free : k'.processes.free = k.processes.free
  descriptor : ∀ g, k'.processes.get g =
    if h = g then { k.processes.get h with waitsOn := none } else k.processes.get g
  waits : k'.waits.Valid
  without : k.waits.Without (fun g => g = h) k'.waits
  queues : ∀ p, p ≠ .processor → k'.standing p = (k.standing p).erase h
  current : k'.current = k.current
  pids : k'.pids = k.pids
  lastPid : k'.lastPid = k.lastPid
  live : k'.liveCount = k.liveCount
  soft : k'.softCount.toNat + (k.processes.get h).wait.isSoft.toNat = k.softCount.toNat

/-- A process that waits for nothing leaves the ready queue, if it stands there. -/
theorem withdrawn_of_idle (hk : k.Accounted) (hp : k.At h p) (hmark : p.mark = none)
    (hwait : p.wait = .none) : k.Withdrawn h { k with ready := k.ready.erase h } where
  inUse := rfl
  free := rfl
  descriptor := fun g => by
    split
    · rename_i heq
      subst heq
      rw [← hmark, ← hp.mark]
    · rfl
  waits := hk.waits
  without := .of_nobody hk.waits fun id g hg => decide_eq_false fun heq => by
    rw [← (hp.mem_iff (q := .waitList id)).1 (heq ▸ hg)] at hmark
    cases hmark
  queues := fun q hq => by
    cases q with
    | processor => exact absurd rfl hq
    | ready => rfl
    | waitList id =>
      refine (List.erase_of_not_mem fun hmem => ?_).symm
      have heq := (hp.mem_iff (q := .waitList id)).1 hmem
      rw [← heq] at hmark
      cases hmark
  current := rfl
  pids := rfl
  lastPid := rfl
  live := rfl
  soft := by
    rw [hp.wait, hwait]
    rfl

/-- A process that waits on a semaphore leaves the wait list; the values of semaphores and the
machine may change at the same time. -/
theorem withdrawn_of_requeued {room : WaitRoom} {n : Word} (values : SemaphoreValues)
    (machine : Machine) (hp : k.At h (.waitList id))
    (hroom : k.toWaitRoom.Requeued id ((k.waits.waiting id).erase h) h none room)
    (hwithout : k.waits.Without (fun g => g = h) room.waits)
    (hn : n.toNat + id.waitKind.isSoft.toNat = k.softCount.toNat) :
    k.Withdrawn h { k with toWaitRoom := room, softCount := n, values, machine } where
  inUse := by
    dsimp only
    rw [hroom.processes]
    rfl
  free := by
    dsimp only
    rw [hroom.processes]
    rfl
  descriptor := fun g => by
    dsimp only
    rw [hroom.processes, ProcessTable.get_modify]
  waits := hroom.waits
  without := hwithout
  queues := fun q hq => by
    cases q with
    | processor => exact absurd rfl hq
    | ready =>
      refine (List.erase_of_not_mem fun hmem => ?_).symm
      exact Place.noConfusion ((hp.mem_iff (q := .ready)).1 hmem)
    | waitList other =>
      unfold standing
      dsimp only
      rw [hroom.waiting]
      split
      · rename_i heq
        rw [heq]
      · rename_i hne
        refine (List.erase_of_not_mem fun hmem => ?_).symm
        exact hne (Place.waitList.inj ((hp.mem_iff (q := .waitList other)).1 hmem))
  current := rfl
  pids := rfl
  lastPid := rfl
  live := rfl
  soft := by
    rw [hp.wait]
    exact hn

theorem leaveQueue_finishes (hk : k.Accounted) (hp : k.At h p) :
    (leaveQueue h k).Finishes fun _ k' => k.Withdrawn h k' := by
  have hsoft : (k.processes.get h).wait.isSoft = true →
      ∃ n, Word.pred k.softCount = .ok n ∧ n.toNat + 1 = k.softCount.toNat := fun hs =>
    ⟨_, Word.pred_of_pos (hk.softCount_pos (hk.used_of_mem hp.mem) hs)⟩
  unfold leaveQueue WaitRoom.onKernel
  simp only [Finishes, Action.ends_bind, Action.ends_look]
  cases p with
  | processor =>
    rw [hp.wait]
    exact withdrawn_of_idle hk hp rfl rfl
  | ready =>
    rw [hp.wait]
    exact withdrawn_of_idle hk hp rfl rfl
  | waitList id =>
    have hmem : h ∈ k.waits.waiting id := hp.mem
    have honly : ∀ other, h ∈ k.waits.waiting other ↔ other = id := fun other =>
      (hp.mem_iff (q := .waitList other)).trans ⟨Place.waitList.inj, congrArg Place.waitList⟩
    have hwithdraw : ∀ values machine, ((WaitRoom.withdraw h)
        { k with values, machine }.toWaitRoom).Finishes fun _ room =>
          k.toWaitRoom.Requeued id ((k.waits.waiting id).erase h) h none room ∧
            k.waits.Without (fun g => g = h) room.waits := fun _ _ =>
      ((WaitRoom.withdraw_finishes hk.waits hp.mark hmem).and_always
        (WaitRoom.withdraw_without hk.waits hp.mark honly)).mono fun _ _ h => ⟨h.1.2, h.2⟩
    rw [hp.wait, hp.mark]
    rw [hp.wait] at hsoft
    cases id with
    | user address =>
      simp only [Place.wait, SemaphoreId.waitKind, Place.mark, Action.ends_bind,
        Action.ends_discard, Action.ends_change, Action.ends_within]
      refine (hwithdraw _ _).ends fun _ room hroom => ?_
      exact withdrawn_of_requeued _ _ hp hroom.1 hroom.2 rfl
    | clock =>
      obtain ⟨n, hpred, hn⟩ := hsoft rfl
      simp only [Place.wait, SemaphoreId.waitKind, Action.ends_bind, Action.ends_discard,
        Action.ends_change, Action.ends_within]
      refine (hwithdraw _ _).ends fun _ room hroom => ?_
      refine Action.ends_attempt_ok (by unfold softDown; dsimp only [add]; rw [hpred]; rfl) ?_
      exact withdrawn_of_requeued _ _ hp hroom.1 hroom.2 hn
    | device d =>
      obtain ⟨n, hpred, hn⟩ := hsoft rfl
      simp only [Place.wait, SemaphoreId.waitKind, Action.ends_bind, Action.ends_discard,
        Action.ends_within]
      refine (hwithdraw _ _).ends fun _ room hroom => ?_
      refine Action.ends_attempt_ok (by unfold softDown; dsimp only; rw [hpred]; rfl) ?_
      exact withdrawn_of_requeued _ _ hp hroom.1 hroom.2 hn

/-! ## Retiring a process -/

/-- `h` is gone from all the books. The others differ only in that it is no longer among their
children. -/
structure Retired (k : Kernel) (h : Slot) (k' : Kernel) : Prop where
  isUsed : ∀ g, k'.processes.isUsed g = if h = g then false else k.processes.isUsed g
  kept : ∀ g, k.processes.isUsed g = true → h ≠ g → k'.processes.get g =
    { k.processes.get g with children := (k.processes.children g).filter (· ≠ h) }
  unused : ∀ g, k.processes.isUsed g = false → k'.processes.get g = k.processes.get g
  free : k'.processes.free.slots = k.processes.free.slots ++ [h]
  table : k'.processes.Valid
  waits : k'.waits.Valid
  without : k.waits.Without (fun g => g = h) k'.waits
  standing : ∀ p, k'.standing p = (k.standing p).erase h
  pids : k.pids.toList.Perm ((k.pidAt h, h) :: k'.pids.toList)
  lastPid : k'.lastPid = k.lastPid
  live : k'.liveCount.toNat + 1 = k.liveCount.toNat
  soft : k'.softCount.toNat + (k.processes.get h).wait.isSoft.toNat = k.softCount.toNat

namespace Retired

theorem used_iff (hr : k.Retired h k') :
    k'.processes.isUsed g = true ↔ k.processes.isUsed g = true ∧ h ≠ g := by
  rw [hr.isUsed]
  split
  · rename_i heq
    exact iff_of_false Bool.false_ne_true fun hand => hand.2 heq
  · rename_i hne
    exact (and_iff_left hne).symm

theorem count_of_ne (hr : k.Retired h k') (hne : h ≠ g) (q : Place) :
    (k'.standing q).count g = (k.standing q).count g := by
  rw [hr.standing, List.count_erase_of_ne (Ne.symm hne)]

theorem at_of_ne (hr : k.Retired h k') (hg : k.processes.isUsed g = true) (hne : h ≠ g)
    (hp : k.At g p) : k'.At g p := by
  have hget := hr.kept g hg hne
  refine ⟨fun q => (hr.count_of_ne hne q).trans (hp.count q), ?_, ?_⟩
  · rw [hget]
    exact hp.mark
  · rw [hget]
    exact hp.wait

theorem indexed (hr : k.Retired h k') (hk : k.Indexed) : k'.Indexed := by
  have hnodup := (hr.pids.map Prod.fst).nodup_iff.1 hk.nodup
  obtain ⟨hnot, hnodup⟩ := List.nodup_cons.1 hnodup
  have hpid : ∀ {g}, k.processes.isUsed g = true → h ≠ g → k'.pidAt g = k.pidAt g :=
    fun {g} hg hne => by
      simp only [pidAt, hr.kept g hg hne]
  refine ⟨hnodup, ?_, ?_, ?_⟩
  · intro pid g
    constructor
    · intro hmem
      obtain ⟨hg, hgp⟩ := hk.mem_iff.1 (hr.pids.mem_iff.2 (List.mem_cons_of_mem _ hmem))
      have hne : h ≠ g := by
        rintro rfl
        rw [hgp] at hnot
        exact hnot (List.mem_map.2 ⟨(pid, h), hmem, rfl⟩)
      exact ⟨hr.used_iff.2 ⟨hg, hne⟩, (hpid hg hne).trans hgp⟩
    · rintro ⟨hg, hgp⟩
      obtain ⟨hg, hne⟩ := hr.used_iff.1 hg
      have hmem := hr.pids.mem_iff.1 (hk.mem_iff.2 ⟨hg, (hpid hg hne).symm.trans hgp⟩)
      exact (List.mem_cons.1 hmem).resolve_left fun heq => hne (Prod.mk.inj heq).2.symm
  · intro g hg
    obtain ⟨hg, hne⟩ := hr.used_iff.1 hg
    rw [hpid hg hne]
    exact hk.positive hg
  · intro g hg
    obtain ⟨hg, hne⟩ := hr.used_iff.1 hg
    rw [hpid hg hne, hr.lastPid]
    exact hk.le_last hg

theorem linked (hr : k.Retired h k') (hk : k.processes.Linked)
    (hh : k.processes.isUsed h = true) (hchildren : k.processes.children h = []) :
    k'.processes.Linked := by
  have hget := hk.get_detach hh hh
  rw [if_pos rfl] at hget
  refine (hk.detach hh).remove (h := h) ?_ ?_ ?_ fun g hg hne => ?_
  · unfold ProcessTable.parentAt
    rw [hget]
  · unfold ProcessTable.children
    rw [hget]
    exact hchildren
  · intro g
    rw [ProcessTable.isUsed_detach]
    exact hr.isUsed g
  · rw [ProcessTable.isUsed_detach] at hg
    have heq : k'.processes.get g = (k.processes.detach h).get g := by
      rw [hr.kept g hg hne, hk.get_detach hh hg, if_neg hne]
    exact ⟨congrArg Descriptor.pid heq, congrArg Descriptor.parent heq,
      congrArg Descriptor.children heq⟩

end Retired

/-- The books agree after a process without children has been retired. -/
theorem Accounted.retired (hk : k.Accounted) (hh : k.processes.isUsed h = true)
    (hchildren : k.processes.children h = []) (hr : k.Retired h k') : k'.Accounted where
  table := hr.table
  waits := hr.waits
  linked := hr.linked hk.linked hh hchildren
  indexed := hr.indexed hk.indexed
  placed := fun {g} hg => by
    obtain ⟨hg, hne⟩ := hr.used_iff.1 hg
    obtain ⟨p, hp⟩ := hk.placed hg
    exact ⟨p, hr.at_of_ne hg hne hp⟩
  absent := fun {g} hg p hmem => by
    rw [hr.standing] at hmem
    by_cases heq : h = g
    · subst heq
      exact (hk.nodup_standing p).not_mem_erase hmem
    · rw [hr.isUsed, if_neg heq] at hg
      exact hk.absent hg p (List.mem_of_mem_erase hmem)
  live := by
    have hupdate := countSlots_update (h := h) (p := k'.processes.isUsed)
      (q := k.processes.isUsed) fun g hg => by rw [hr.isUsed, if_neg (Ne.symm hg)]
    have hself : k'.processes.isUsed h = false := by rw [hr.isUsed, if_pos rfl]
    have hlive := hr.live
    rw [hk.live, ← Nat.add_zero (countSlots k.processes.isUsed)] at hlive
    rw [hself, hh] at hupdate
    exact Nat.succ.inj (hlive.trans hupdate)
  soft := by
    have hupdate := countSlots_update (h := h)
      (p := fun g => k'.processes.isUsed g && (k'.processes.get g).wait.isSoft)
      (q := fun g => k.processes.isUsed g && (k.processes.get g).wait.isSoft) fun g hg => by
        rw [hr.isUsed, if_neg (Ne.symm hg)]
        cases hused : k.processes.isUsed g with
        | false => rfl
        | true => rw [hr.kept g hused (Ne.symm hg)]
    have hself : k'.processes.isUsed h = false := by rw [hr.isUsed, if_pos rfl]
    have hsoft := hr.soft
    rw [hk.soft] at hsoft
    rw [hself, hh, Bool.false_and, Bool.true_and] at hupdate
    exact Nat.add_right_cancel (hsoft.trans hupdate)

theorem At.detach (hp : k.At g p) (h : Slot) :
    At { k with processes := k.processes.detach h } g p := by
  obtain ⟨_, _, hget⟩ := k.processes.exists_get_detach h g
  refine ⟨hp.count, ?_, ?_⟩
  · dsimp only
    rw [hget]
    exact hp.mark
  · dsimp only
    rw [hget]
    exact hp.wait

/-- Taking a process away from its parent leaves the books in order. -/
theorem Accounted.detach (hk : k.Accounted) (hh : k.processes.isUsed h = true) :
    Accounted { k with processes := k.processes.detach h } := by
  have hused : ∀ g, (k.processes.detach h).isUsed g = k.processes.isUsed g :=
    k.processes.isUsed_detach h
  have hwait : ∀ g, ((k.processes.detach h).get g).wait = (k.processes.get g).wait := fun g => by
    obtain ⟨_, _, hget⟩ := k.processes.exists_get_detach h g
    rw [hget]
  refine ⟨?_, hk.waits, hk.linked.detach hh, ?_, ?_, ?_, ?_, ?_⟩
  · refine hk.table.congr ?_ (k.processes.free_detach h)
    exact k.processes.inUse_detach h
  · refine hk.indexed.congr hused (fun g => ?_) rfl rfl
    obtain ⟨_, _, hget⟩ := k.processes.exists_get_detach h g
    simp only [pidAt, hget]
  · intro g hg
    obtain ⟨p, hp⟩ := hk.placed ((hused g).symm.trans hg)
    exact ⟨p, hp.detach h⟩
  · intro g hg p
    exact hk.absent ((hused g).symm.trans hg) p
  · exact hk.live.trans (countSlots_congr fun g => (hused g).symm)
  · refine hk.soft.trans (countSlots_congr fun g => ?_)
    rw [hused, hwait]

/-- A process that stands in no queue any more is struck off the rest of the books. -/
theorem retired_of_withdrawn {u : ProcessTable} {current : Option Slot} {n : Word}
    (hk : k.Accounted) (hh : k.processes.isUsed h = true)
    (hw : Withdrawn { k with processes := k.processes.detach h } h k'')
    (hu : k''.processes.Released h u)
    (hcurrent : current.toList = k.current.toList.erase h)
    (hn : n.toNat + 1 = k.liveCount.toNat) :
    k.Retired h { k'' with
      processes := u, current, pids := k''.pids.remove (k.pidAt h), liveCount := n } := by
  have hused : ∀ g, k''.processes.isUsed g = k.processes.isUsed g := fun g => by
    simp only [ProcessTable.isUsed, hw.inUse]
    exact k.processes.isUsed_detach h g
  refine ⟨fun g => ?_, fun g hg hne => ?_, fun g hg => ?_, ?_, hu.valid, hw.waits, hw.without,
    fun p => ?_, ?_, hw.lastPid, hn, ?_⟩
  · exact (hu.isUsed g).trans (by rw [hused])
  · refine (hu.get g hne).trans ?_
    rw [hw.descriptor, if_neg hne, hk.linked.get_detach hh hg, if_neg hne]
  · have hne : h ≠ g := fun heq => by
      rw [← heq, hh] at hg
      cases hg
    refine (hu.get g hne).trans ?_
    rw [hw.descriptor, if_neg hne, hk.linked.get_detach_of_unused hh hg]
  · refine hu.free.trans ?_
    rw [hw.free, k.processes.free_detach]
  · cases p with
    | processor => exact hcurrent
    | ready => exact hw.queues .ready Place.noConfusion
    | waitList id => exact hw.queues (.waitList id) Place.noConfusion
  · rw [hw.pids]
    exact PidIndex.perm_remove hk.indexed.nodup (hk.indexed.mem_iff.2 ⟨hh, rfl⟩)
  · have hsoft := hw.soft
    obtain ⟨_, _, hget⟩ := k.processes.exists_get_detach h h
    dsimp only at hsoft
    rw [hget] at hsoft
    exact hsoft

/-- A live process can be retired. -/
theorem retire_finishes (hk : k.Accounted) (hh : k.processes.isUsed h = true) :
    (retire h k).Finishes fun _ k' => k.Retired h k' := by
  obtain ⟨p, hp⟩ := hk.placed hh
  have hlive : 0 < k.liveCount.toNat := by
    rw [hk.live]
    exact countSlots_pos_iff.2 ⟨h, hh⟩
  unfold retire Finishes
  rw [Action.ends_bind, Action.ends_look, Action.ends_bind, Action.ends_change, Action.ends_bind]
  refine (leaveQueue_finishes (hk.detach hh) (hp.detach h)).ends fun _ k'' hw => ?_
  have hvalid : k''.processes.Valid :=
    (hk.detach hh).table.congr hw.inUse hw.free
  have hused : k''.processes.isUsed h = true := by
    simp only [ProcessTable.isUsed, hw.inUse]
    exact (k.processes.isUsed_detach h h).trans hh
  obtain ⟨u, hrelease, hu⟩ := hvalid.release hused
  obtain ⟨hpred, hn⟩ := Word.pred_of_pos hlive
  rw [Action.ends_bind, Action.ends_change, Action.ends_bind, Action.ends_change, Action.ends_bind]
  obtain ⟨current, hstops, hcurrent⟩ : ∃ current,
      (if k''.current = some h then { k'' with current := none } else k'') = { k'' with current } ∧
        current.toList = k.current.toList.erase h := by
    split
    · rename_i hcurrent
      refine ⟨none, rfl, ?_⟩
      rw [show k.current = some h from hw.current.symm.trans hcurrent]
      exact (List.erase_cons_head h []).symm
    · rename_i hcurrent
      refine ⟨k''.current, rfl, ?_⟩
      rw [hw.current]
      refine (List.erase_of_not_mem fun hmem => hcurrent ?_).symm
      rw [hw.current]
      exact Option.mem_toList.1 hmem
  rw [hstops]
  refine Action.ends_attempt_ok (by dsimp only; rw [hrelease]; rfl) ?_
  rw [Action.ends_bind]
  refine Action.ends_attempt_ok (by dsimp only; rw [hw.live, hpred]; rfl) ?_
  exact retired_of_withdrawn hk hh hw hu hcurrent hn

/-! ## Dismissing a family -/

/-- The processes in a list are gone from all the books. The others keep their descriptors, less the
children that are gone, and their order in every queue. -/
structure Dismissed (k : Kernel) (hs : List Slot) (k' : Kernel) : Prop where
  used_iff : ∀ g, k'.processes.isUsed g = true ↔ k.processes.isUsed g = true ∧ g ∉ hs
  kept : ∀ g, k.processes.isUsed g = true → g ∉ hs → k'.processes.get g =
    { k.processes.get g with children := (k.processes.children g).filter (!hs.contains ·) }
  standing : ∀ p, k'.standing p = (k.standing p).filter (!hs.contains ·)
  lastPid : k'.lastPid = k.lastPid

theorem filter_not_contains_cons (h : Slot) (hs l : List Slot) :
    (l.filter (· ≠ h)).filter (!hs.contains ·) = l.filter (!(h :: hs).contains ·) := by
  rw [List.filter_filter]
  refine List.filter_congr fun g _ => ?_
  rw [Bool.eq_iff_iff]
  simp [and_comm]

namespace Dismissed

theorem refl (k : Kernel) : k.Dismissed [] k := by
  have hall : ∀ l : List Slot, l.filter (!([] : List Slot).contains ·) = l := fun l =>
    List.filter_eq_self.2 fun g _ => rfl
  refine ⟨fun g => (and_iff_left List.not_mem_nil).symm, fun g _ _ => ?_, fun p => ?_, rfl⟩
  · rw [hall]
    rfl
  · rw [hall]

theorem cons (hk : k.Accounted) (hr : k.Retired h k') (hd : k'.Dismissed hs k'') :
    k.Dismissed (h :: hs) k'' := by
  refine ⟨fun g => ?_, fun g hg hnot => ?_, fun p => ?_, hd.lastPid.trans hr.lastPid⟩
  · rw [hd.used_iff, hr.used_iff, List.mem_cons, not_or, and_assoc]
    exact and_congr_right fun _ => and_congr_left fun _ => ne_comm
  · obtain ⟨hne, hnot⟩ := not_or.1 (mt List.mem_cons.2 hnot)
    have hget := hr.kept g hg (Ne.symm hne)
    have hchildren : k'.processes.children g = (k.processes.children g).filter (· ≠ h) := by
      unfold ProcessTable.children
      rw [hget]
      rfl
    rw [hd.kept g (hr.used_iff.2 ⟨hg, Ne.symm hne⟩) hnot, hchildren, filter_not_contains_cons, hget]
  · have herase : (k.standing p).erase h = (k.standing p).filter (· ≠ h) := by
      rw [(hk.nodup_standing p).erase_eq_filter]
      exact List.filter_congr fun g _ => by rw [Bool.eq_iff_iff, bne_iff_ne, decide_eq_true_iff]
    rw [hd.standing, hr.standing, herase, filter_not_contains_cons]

/-- Who is left keeps its handlers. -/
theorem registered (hd : k.Dismissed hs k') (hg : k'.processes.isUsed g = true)
    (hr : (k.processes.get g).Registered) : (k'.processes.get g).Registered := by
  obtain ⟨hg, hnot⟩ := (hd.used_iff g).1 hg
  rw [hd.kept g hg hnot]
  exact hr.congr ⟨rfl, rfl⟩

end Dismissed

/-- Processes that can be retired one after the other: all are alive, and each is listed once and
after its children. -/
structure Retirable (k : Kernel) (hs : List Slot) : Prop where
  used : ∀ h ∈ hs, k.processes.isUsed h = true
  nodup : hs.Nodup
  childrenFirst : k.processes.ChildrenFirst [] hs

namespace Retirable

theorem head (hl : k.Retirable (h :: hs)) : k.processes.isUsed h = true :=
  hl.used h List.mem_cons_self

/-- The first of a list in which children come before their parents has none. -/
theorem children_head (hl : k.Retirable (h :: hs)) : k.processes.children h = [] :=
  List.eq_nil_iff_forall_not_mem.2 fun c hc => List.not_mem_nil (hl.childrenFirst.1 c hc)

/-- Those behind the first are kept when it is retired. -/
theorem kept (hl : k.Retirable (h :: hs)) (hr : k.Retired h k') (hg : g ∈ hs) :
    k'.processes.get g =
      { k.processes.get g with children := (k.processes.children g).filter (· ≠ h) } :=
  hr.kept g (hl.used g (List.mem_cons_of_mem _ hg)) fun heq =>
    (List.nodup_cons.1 hl.nodup).1 (heq ▸ hg)

/-- Once the first has been retired the rest can be retired in the same way. -/
theorem tail (hl : k.Retirable (h :: hs)) (hr : k.Retired h k') : k'.Retirable hs where
  used g hg := by
    have hne : h ≠ g := fun heq => (List.nodup_cons.1 hl.nodup).1 (heq ▸ hg)
    exact hr.used_iff.2 ⟨hl.used g (List.mem_cons_of_mem _ hg), hne⟩
  nodup := (List.nodup_cons.1 hl.nodup).2
  childrenFirst := hl.childrenFirst.2.tail fun g hg c hc => by
    unfold ProcessTable.children at hc
    rw [hl.kept hr hg] at hc
    exact ⟨(List.mem_filter.1 hc).1, of_decide_eq_true (List.mem_filter.1 hc).2⟩

end Retirable

/-- A process and its descendants can be retired, the process last. -/
theorem Accounted.retirable (hk : k.Accounted) (hh : k.processes.isUsed h = true) :
    k.Retirable (k.processes.family maxProcesses h) where
  used _ hg := (hk.linked.mem_family hh hg).1
  nodup := hk.linked.nodup_family hh
  childrenFirst := hk.linked.childrenFirst_family hh (k.processes.youngerCount_lt h)

/-- Processes that are listed after their children can be retired one after the other, and what
follows along the list from retiring one of them holds of them all. -/
theorem retireAll_induction {one : Kernel → Slot → Kernel → Prop}
    {all : Kernel → List Slot → Kernel → Prop}
    (retire_one : ∀ {k h}, k.Accounted → k.processes.isUsed h = true →
      (retire h k).Finishes fun _ k' => one k h k')
    (nil : ∀ k, all k [] k)
    (cons : ∀ {k h k' hs k''}, k.Accounted → k.Retired h k' → one k h k' → all k' hs k'' →
      all k (h :: hs) k'')
    (hk : k.Accounted) (hl : k.Retirable hs) :
    (hs.forM retire k).Finishes fun _ k' => k'.Accounted ∧ all k hs k' := by
  induction hs generalizing k with
  | nil => exact ⟨hk, nil k⟩
  | cons h hs ih =>
    change ((retire h >>= fun _ => hs.forM retire) k).Finishes _
    simp only [Finishes, Action.ends_bind]
    refine ((retire_finishes hk hl.head).and (retire_one hk hl.head)).ends fun _ k₁ hr => ?_
    obtain ⟨hr, hone⟩ := hr
    refine (ih (hk.retired hl.head hl.children_head hr) (hl.tail hr)).ends fun _ k₂ hd => ?_
    exact ⟨hd.1, cons hk hr hone hd.2⟩

/-- Processes that are listed after their children are gone from the books once they have been
retired. -/
theorem retireAll_finishes (hk : k.Accounted) (hl : k.Retirable hs) :
    (hs.forM retire k).Finishes fun _ k' => k'.Accounted ∧ k.Dismissed hs k' :=
  retireAll_induction retire_finishes .refl (fun hk hr _ hd => .cons hk hr hd) hk hl

/-- What `terminate` leaves: nothing has happened because the pid is not alive, or the process and
its descendants are gone. -/
def TerminateResult (k : Kernel) (pid : Pid) (found : Bool) (k' : Kernel) : Prop :=
  (k.pids.lookup pid = none ∧ found = false ∧ k' = k) ∨
    ∃ victim, k.pids.lookup pid = some victim ∧ found = true ∧
      k.Dismissed (k.processes.family maxProcesses victim) k'

theorem terminate_of_dead {pid : Pid} (hlookup : k.pids.lookup pid = none) :
    terminate pid k = .ok false k [] := by
  unfold terminate
  rw [Action.look_bind_apply, hlookup]
  rfl

/-- A process is terminated by retiring its descendants and then itself. -/
theorem terminate_of_live {pid : Pid} {victim : Slot}
    (hlookup : k.pids.lookup pid = some victim) :
    terminate pid k =
      ((k.processes.family maxProcesses victim).forM retire >>= fun _ => pure true) k := by
  unfold terminate
  rw [Action.look_bind_apply, hlookup]
  dsimp only
  rw [Action.look_bind_apply]

/-- The books agree after a process and its descendants have been terminated. -/
theorem Accounted.terminate (hk : k.Accounted) (pid : Pid) :
    (terminate pid k).Finishes fun found k' => k'.Accounted ∧ k.TerminateResult pid found k' := by
  cases hlookup : k.pids.lookup pid with
  | none =>
    rw [terminate_of_dead hlookup]
    exact ⟨hk, .inl ⟨hlookup, rfl, rfl⟩⟩
  | some victim =>
    obtain ⟨hvictim, -⟩ := hk.indexed.lookup_eq_some_iff.1 hlookup
    rw [terminate_of_live hlookup, Finishes, Action.ends_bind]
    refine (retireAll_finishes hk (hk.retirable hvictim)).ends ?_
    exact fun _ k' hd => ⟨hd.1, .inr ⟨victim, hlookup, rfl, hd.2⟩⟩

/-- Whoever survives a termination keeps its handlers, so only the processes other than the one
named need to have theirs in order. -/
theorem Sound.of_terminated {found : Bool} (hk' : k'.Accounted)
    (ht : k.TerminateResult pid found k')
    (hr : ∀ h, k.processes.isUsed h = true → k.pids.lookup pid ≠ some h →
      (k.processes.get h).Registered) : k'.Sound := by
  refine ⟨hk', fun {g} hg => ?_⟩
  rcases ht with ⟨hnone, -, rfl⟩ | ⟨victim, hvictim, -, hd⟩
  · exact hr g hg (hnone ▸ (Option.some_ne_none g).symm)
  · obtain ⟨hused, hnot⟩ := (hd.used_iff g).1 hg
    refine hd.registered hg (hr g hused fun heq => hnot ?_)
    rw [hvictim] at heq
    rw [Option.some.inj heq]
    exact k.processes.self_mem_family g

theorem Sound.terminate (hk : k.Sound) (pid : Pid) :
    (terminate pid k).Finishes fun found k' => k'.Sound ∧ k.TerminateResult pid found k' :=
  (hk.toAccounted.terminate pid).mono fun _ _ h =>
    ⟨.of_terminated h.1 h.2 fun _ hh _ => hk.registered hh, h.2⟩

end Nucleus.Kernel
