import Nucleus.Proofs.Kernel.Termination
import Nucleus.Proofs.Kernel.View

/-!
# Refunds

A process that is terminated while it waits on a user semaphore or the pseudo-clock gives back the
unit that it asked for (`value_refund`). The view of a semaphore is therefore thinned when a family
is terminated, whatever its members were doing (`terminate_thinned`).
-/

namespace Nucleus

/-- The members of a list that are `h` or in `hs`. -/
theorem countP_contains_cons {l : List Slot} (hl : l.Nodup) (h : Slot) (hs : List Slot) :
    l.countP ((h :: hs).contains ·) = l.count h + (l.erase h).countP (hs.contains ·) := by
  have hrest : (l.erase h).countP ((h :: hs).contains ·) = (l.erase h).countP (hs.contains ·) := by
    refine List.countP_congr fun g hg => ?_
    have hne : g ≠ h := (hl.mem_erase_iff.1 hg).1
    simp [hne]
  by_cases hmem : h ∈ l
  · rw [(List.perm_cons_erase hmem).countP_eq, List.countP_cons_of_pos (by simp), hrest,
      List.count_eq_one_of_mem hl hmem, Nat.add_comm]
  · rw [← hrest, List.erase_of_not_mem hmem, List.count_eq_zero_of_not_mem hmem, Nat.zero_add]

namespace Kernel

open Outcome

variable {k k' k'' : Kernel} {h : Slot} {id : SemaphoreId} {p : Place} {hs : List Slot} {pid : Pid}

/-! ## Retiring one process -/

/-- A waiting process gives back the unit that it asked for, unless a device is to bring it. -/
def refund (k : Kernel) (h : Slot) : Kernel :=
  match (k.processes.get h).wait, (k.processes.get h).waitsOn with
  | .semaphore, some id => k.add id 1
  | .clock, _ => k.add .clock 1
  | _, _ => k

theorem leaveQueue_sameWorld (h : Slot) (k : Kernel) :
    (leaveQueue h k).Always (k.refund h).SameWorld := by
  have hwithdraw : ∀ k : Kernel,
      ((discard (WaitRoom.onKernel (WaitRoom.withdraw h)) : Action Kernel Unit) k).Always
        k.SameWorld := fun k => Action.ends_discard.2 (onKernel_sameWorld _ k)
  have hsoft : ∀ k : Kernel, ((do
      discard (WaitRoom.onKernel (WaitRoom.withdraw h))
      Action.attempt softDown : Action Kernel Unit) k).Always k.SameWorld := fun k =>
    sameWorld_bind (hwithdraw k) fun _ k => attempt_sameWorld (fun _ _ => sameWorld_of_softDown) k
  unfold leaveQueue refund Always
  rw [Action.ends_bind, Action.ends_look]
  cases (k.processes.get h).wait with
  | none => exact ⟨⟨rfl, rfl, rfl, rfl, rfl⟩, rfl⟩
  | device => exact hsoft k
  | clock =>
    dsimp only
    rw [Action.ends_bind, Action.ends_change]
    exact hsoft _
  | semaphore =>
    cases (k.processes.get h).waitsOn with
    | none => exact hwithdraw k
    | some id =>
      dsimp only
      rw [Action.ends_bind, Action.ends_change]
      exact hwithdraw _

/-- Taking a process away from its parent does not matter for its refund. -/
theorem refund_detach (k : Kernel) (h : Slot) :
    (refund { k with processes := k.processes.detach h } h).value id = (k.refund h).value id := by
  obtain ⟨_, _, hget⟩ := k.processes.exists_get_detach h h
  unfold refund
  dsimp only
  rw [hget]
  dsimp only
  split <;> rfl

/-- Retiring a process changes the machine, the values and the times only by its refund. -/
theorem retire_sameWorld (h : Slot) (k : Kernel) :
    (retire h k).Always (refund { k with processes := k.processes.detach h } h).SameWorld := by
  unfold retire Always
  rw [Action.ends_bind, Action.ends_look, Action.ends_bind, Action.ends_change]
  refine sameWorld_bind (leaveQueue_sameWorld h _) fun _ k => ?_
  refine sameWorld_bind (k := k) ?_ fun _ k => ?_
  · show SameWorld k (if k.current = some h then { k with current := none } else k)
    split
    · exact ⟨⟨rfl, rfl, rfl, rfl, rfl⟩, rfl⟩
    · exact .refl k
  refine sameWorld_bind (k := k) ⟨⟨rfl, rfl, rfl, rfl, rfl⟩, rfl⟩ fun _ k => ?_
  refine sameWorld_bind (attempt_sameWorld (fun k k' hk' => ?_) k) fun _ k => ?_
  · cases hrelease : k.processes.release h <;> rw [hrelease] at hk' <;> cases hk'
    exact ⟨⟨rfl, rfl, rfl, rfl, rfl⟩, rfl⟩
  refine sameWorld_bind (attempt_sameWorld (fun k k' hk' => ?_) k) fun _ k => ?_
  · cases hpred : Word.pred k.liveCount <;> rw [hpred] at hk' <;> cases hk'
    exact ⟨⟨rfl, rfl, rfl, rfl, rfl⟩, rfl⟩
  exact .refl k

theorem retire_value (h : Slot) (k : Kernel) (id : SemaphoreId) :
    (retire h k).Always fun k' => k'.value id = (k.refund h).value id :=
  (retire_sameWorld h k).mono fun _ hw => (hw.value id).trans (refund_detach k h)

/-- A process gives back a unit exactly if it waits on a semaphore that takes one back. -/
theorem refund_cases (hp : k.At h p) :
    (k.refund h = k ∧ ∀ id, p = .waitList id → id.refunds = false) ∨
      ∃ id, p = .waitList id ∧ id.refunds = true ∧ k.refund h = k.add id 1 := by
  unfold refund
  rw [hp.wait, hp.mark]
  rcases p with _ | _ | (d | _ | address)
  · exact .inl ⟨rfl, nofun⟩
  · exact .inl ⟨rfl, nofun⟩
  · refine .inl ⟨rfl, ?_⟩
    rintro _ ⟨⟩
    rfl
  · exact .inr ⟨.clock, rfl, rfl, rfl⟩
  · exact .inr ⟨.user address, rfl, rfl, rfl⟩

/-- The refund goes to the semaphore on which the process waits. -/
theorem value_refund (hid : id.OffRegisters) (hp : k.At h p) :
    ((k.refund h).value id).toInt = min Count.greatest
      ((k.value id).toInt + if id.refunds then ((k.waits.waiting id).count h : Int) else 0) := by
  have hhigh : (k.value id).toInt ≤ Count.greatest := (k.value id).toInt_le
  have hcount : (k.waits.waiting id).count h = if Place.waitList id = p then 1 else 0 :=
    hp.count (.waitList id)
  rw [hcount]
  rcases refund_cases hp with ⟨hsame, hnone⟩ | ⟨other, rfl, hother, hadd⟩
  · have hnothing : id.refunds = true → Place.waitList id ≠ p := fun hrefunds hplace =>
      Bool.false_ne_true ((hnone id hplace.symm).symm.trans hrefunds)
    rw [hsame]
    split
    · rename_i hrefunds
      rw [if_neg (hnothing hrefunds)]
      omega
    · omega
  · rw [hadd, value_add hid]
    by_cases heq : other = id
    · subst heq
      rw [if_pos rfl, if_pos hother, if_pos rfl]
      exact Count.toInt_add_one _
    · have hne : Place.waitList id ≠ .waitList other := fun h => heq (Place.waitList.inj h).symm
      rw [if_neg heq, if_neg hne]
      split <;> omega

/-- What retiring a process does to the value of a semaphore. -/
theorem retire_finishes_value (hk : k.Accounted) (hid : id.OffRegisters)
    (hh : k.processes.isUsed h = true) :
    (retire h k).Finishes fun _ k' => (k'.value id).toInt = min Count.greatest
      ((k.value id).toInt + if id.refunds then ((k.waits.waiting id).count h : Int) else 0) := by
  obtain ⟨p, hp⟩ := hk.placed hh
  refine ((retire_finishes hk hh).and_always (retire_value h k id)).mono fun _ k' hk' => ?_
  rw [hk'.2, value_refund hid hp]

/-! ## Retiring a family -/

/-- The processes in a list are gone, and those that waited on the semaphore have given back their
units. -/
structure Refunded (id : SemaphoreId) (k : Kernel) (hs : List Slot) (k' : Kernel) : Prop
    extends Dismissed k hs k' where
  value : (k'.value id).toInt = min Count.greatest
    ((k.value id).toInt +
      if id.refunds then ((k.waits.waiting id).countP (hs.contains ·) : Int) else 0)

namespace Refunded

theorem nil (id : SemaphoreId) (k : Kernel) : k.Refunded id [] k where
  toDismissed := .refl k
  value := by
    have hle : (k.value id).toInt ≤ Count.greatest := (k.value id).toInt_le
    have hcount : (k.waits.waiting id).countP (([] : List Slot).contains ·) = 0 := by simp
    rw [hcount]
    split <;> omega

theorem cons (hk : k.Accounted) (hr : k.Retired h k')
    (hvalue : (k'.value id).toInt = min Count.greatest
      ((k.value id).toInt + if id.refunds then ((k.waits.waiting id).count h : Int) else 0))
    (hd : k'.Refunded id hs k'') : k.Refunded id (h :: hs) k'' where
  toDismissed := .cons hk hr hd.toDismissed
  value := by
    have hwaiting : k'.waits.waiting id = (k.waits.waiting id).erase h := hr.standing (.waitList id)
    have hcount := countP_contains_cons (hk.nodup_standing (.waitList id)) h hs
    change (k.waits.waiting id).countP ((h :: hs).contains ·) =
      (k.waits.waiting id).count h + ((k.waits.waiting id).erase h).countP (hs.contains ·) at hcount
    rw [hd.value, hvalue, hwaiting, hcount]
    split <;> omega

theorem thinned (hd : k.Refunded id hs k') : (k.view id).Thinned id.refunds (k'.view id) := by
  refine ⟨hs, fun g hg => ?_, hd.standing (.waitList id), hd.value⟩
  have hused := (hd.used_iff g).not.2 fun hand => hand.2 hg
  exact Bool.eq_false_iff.2 hused

end Refunded

/-- Terminating a process and its descendants thins the waiters of a semaphore. -/
theorem terminate_thinned (hk : k.Accounted) (hid : id.IsOrdinary) (pid : Pid) :
    (terminate pid k).Finishes fun _ k' => (k.view id).Thinned id.refunds (k'.view id) := by
  cases hlookup : k.pids.lookup pid with
  | none =>
    rw [terminate_of_dead hlookup]
    exact .of_eq rfl rfl
  | some victim =>
    obtain ⟨hvictim, -⟩ := hk.indexed.lookup_eq_some_iff.1 hlookup
    rw [terminate_of_live hlookup, Finishes, Action.ends_bind]
    refine (retireAll_induction (fun hk hh => retire_finishes_value hk hid.offRegisters hh)
      (Refunded.nil id) Refunded.cons hk (hk.retirable hvictim)).ends ?_
    exact fun _ k' hd => hd.2.thinned

end Kernel

end Nucleus
