import Nucleus.Proofs.Outcome
import Nucleus.Proofs.Semaphore.WaitLists

/-!
# Entering and leaving the wait lists

What `enter`, `callNext` and `withdraw` do, read through `WaitLists.waiting`. Each of them either
leaves the wait room as it is or replaces the queue of one semaphore and the record of one process
(`WaitRoom.Requeued`).
-/

namespace Nucleus.WaitRoom

open Outcome

variable {r : WaitRoom} {id : SemaphoreId} {h : Slot}

/-- The queue of a semaphore is replaced by `queue` and the semaphore that `h` records by `mark`. -/
structure Requeued (r : WaitRoom) (id : SemaphoreId) (queue : List Slot) (h : Slot)
    (mark : Option SemaphoreId) (s : WaitRoom) : Prop where
  processes : s.processes = r.processes.modify h ({ · with waitsOn := mark })
  waits : s.waits.Valid
  waiting : ∀ other, s.waits.waiting other = if other = id then queue else r.waits.waiting other

/-- Without a wait list to take nothing happens. -/
theorem enter_of_exhausted (hr : r.waits.Valid) (hq : r.waits.waiting id = [])
    (hfree : r.waits.free.slots = []) :
    enter id h r = .fault .semaphorePoolExhausted r [] := by
  simp only [enter, hr.assign_eq_none_iff.2 ⟨hq, hfree⟩]

/-- A process that does not wait on the semaphore yet joins its queue at the tail. -/
theorem enter_finishes (hr : r.waits.Valid)
    (hroom : r.waits.waiting id ≠ [] ∨ r.waits.free.slots ≠ [])
    (hh : h ∉ r.waits.waiting id) :
    (enter id h r).Finishes fun _ s =>
      r.Requeued id (r.waits.waiting id ++ [h]) h (some id) s := by
  unfold enter
  cases hassign : r.waits.assign id with
  | none =>
    obtain ⟨hq, hfree⟩ := hr.assign_eq_none_iff.1 hassign
    rcases hroom with hroom | hroom
    · exact absurd hq hroom
    · exact absurd hfree hroom
  | some iv =>
    obtain ⟨i, v⟩ := iv
    have hv := hr.assigned hassign
    have hq : (v.queueAt i).items = r.waits.waiting id := by
      rw [← hv.waiting id, hv.waiting_of_assigned hv.mem hv.idAt]
    have hi : h ∉ (v.queueAt i).items := by rwa [hq]
    simp only [Queue.enqueue_of_not_mem hi]
    refine ⟨rfl, hv.setQueue ?_ ?_, fun other => ?_⟩
    · exact List.append_ne_nil_of_right_ne_nil _ (List.cons_ne_nil h [])
    · change ((v.queueAt i).items ++ [h]).Nodup
      rw [← List.concat_eq_append]
      exact (List.nodup_concat _ _).2 ⟨hi, hv.nodup i hv.mem⟩
    · rw [hv.toOrdered.waiting_setQueue hv.mem hv.idAt, hv.waiting other, hq]

theorem callNext_of_empty (hq : r.waits.waiting id = []) : callNext id r = .ok none r [] := by
  unfold callNext
  cases hfind : r.waits.find id with
  | none => rfl
  | some i =>
    have hitems : (r.waits.queueAt i).items = [] := by
      unfold WaitLists.waiting at hq
      rw [hfind] at hq
      exact hq
    simp only [Queue.dequeue_eq_none_iff.2 hitems]

/-- The head of the queue leaves it. -/
theorem callNext_finishes {rest : List Slot} (hr : r.waits.Valid)
    (hq : r.waits.waiting id = h :: rest) :
    (callNext id r).Finishes fun a s => a = some h ∧ r.Requeued id rest h none s := by
  obtain ⟨i, hi, hid, hitems⟩ :=
    (hr.assigned_or id).resolve_right fun hnone => List.cons_ne_nil h rest (hq ▸ hnone.2)
  have hdequeue : (r.waits.queueAt i).dequeue = some (h, ⟨rest⟩) :=
    Queue.dequeue_eq_some_iff.2 (hitems.symm.trans hq)
  have hnodup : rest.Nodup := (List.nodup_cons.1 (hq ▸ hr.nodup_waiting id)).2
  obtain ⟨v, hv, hvalid, hwaiting⟩ := hr.shrink_spec hi hid ⟨rest⟩ hnodup
  unfold callNext
  simp only [hr.find_eq_some_iff.2 ⟨hi, hid⟩, hdequeue, hv]
  exact ⟨rfl, rfl, hvalid, hwaiting⟩

/-- A process that does not stand in the queue it records is not taken out of any. -/
theorem withdraw_of_absent
    (hh : ∀ id, (r.processes.get h).waitsOn = some id → h ∉ r.waits.waiting id) :
    withdraw h r = .ok none r [] := by
  unfold withdraw
  cases hfind : (r.processes.get h).waitsOn.bind r.waits.find with
  | none => rfl
  | some i =>
    obtain ⟨id, hid, hi⟩ := Option.bind_eq_some_iff.1 hfind
    have hitems : h ∉ (r.waits.queueAt i).items := by
      have := hh id hid
      unfold WaitLists.waiting at this
      rw [hi] at this
      exact this
    have htake : (r.waits.queueAt i).take h = none := by
      unfold Queue.take
      rw [if_neg hitems]
    simp only [htake]

/-- A process is taken out of the queue that it records. -/
theorem withdraw_finishes (hr : r.waits.Valid) (hid : (r.processes.get h).waitsOn = some id)
    (hh : h ∈ r.waits.waiting id) :
    (withdraw h r).Finishes fun a s =>
      a = some h ∧ r.Requeued id ((r.waits.waiting id).erase h) h none s := by
  obtain ⟨i, hi, hi', hitems⟩ :=
    (hr.assigned_or id).resolve_right fun hnone => List.not_mem_nil (hnone.2 ▸ hh)
  have htake : (r.waits.queueAt i).take h = some ⟨(r.waits.waiting id).erase h⟩ :=
    Queue.take_eq_some_iff.2 ⟨hitems ▸ hh, by rw [hitems]⟩
  obtain ⟨v, hv, hvalid, hwaiting⟩ :=
    hr.shrink_spec hi hi' ⟨(r.waits.waiting id).erase h⟩ ((hr.nodup_waiting id).erase h)
  unfold withdraw
  simp only [hid, Option.bind_some, hr.find_eq_some_iff.2 ⟨hi, hi'⟩, htake, hv]
  exact ⟨rfl, rfl, hvalid, hwaiting⟩

/-- A process that is taken out of the only queue in which it stands leaves the other wait lists
alone. -/
theorem withdraw_without (hr : r.waits.Valid) (hid : (r.processes.get h).waitsOn = some id)
    (hh : ∀ other, h ∈ r.waits.waiting other ↔ other = id) :
    (withdraw h r).Always fun s => r.waits.Without (fun g => g = h) s.waits := by
  have hmem : h ∈ r.waits.waiting id := (hh id).2 rfl
  obtain ⟨i, hi, hi', hitems⟩ :=
    (hr.assigned_or id).resolve_right fun hnone => List.not_mem_nil (hnone.2 ▸ hmem)
  have honly : ∀ j, i ≠ j → h ∉ (r.waits.queueAt j).items := by
    intro j hij hj
    obtain ⟨other, hactive, hother, hwaiting⟩ := hr.exists_waiting hj
    rw [(hh other).1 hwaiting] at hother
    exact hij (hr.idAt_injective hi hactive (hi'.trans hother.symm))
  have htake : (r.waits.queueAt i).take h = some ⟨(r.waits.waiting id).erase h⟩ :=
    Queue.take_eq_some_iff.2 ⟨hitems ▸ hmem, by rw [hitems]⟩
  unfold withdraw
  simp only [hid, Option.bind_some, hr.find_eq_some_iff.2 ⟨hi, hi'⟩, htake]
  cases hshrink : r.waits.shrink i ⟨(r.waits.waiting id).erase h⟩ with
  | error cause => trivial
  | ok v => exact .of_shrink hr hi (by rw [hitems]) honly hshrink

end Nucleus.WaitRoom
