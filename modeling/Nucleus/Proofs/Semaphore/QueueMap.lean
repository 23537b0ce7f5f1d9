import Nucleus.Proofs.Semaphore.WaitRoom
import Mathlib.Data.Finmap

/-!
# The wait room as a map of queues

A `QueueMap` is the wait room without its tables: a finite map from semaphores to the queues of
the processes that wait on them, and the semaphore that each process records. Whatever calls are
made on a wait room, it answers as the map does and always stands for it (`run_calls`).
-/

namespace Nucleus

/-- A call on the wait room. -/
inductive WaitCall where
  | enter (id : SemaphoreId) (h : Slot)
  | callNext (id : SemaphoreId)
  | withdraw (h : Slot)
  deriving DecidableEq

namespace WaitCall

/-- What a call answers: the process that was released, if one was, or why nobody could enter. -/
abbrev Answer := Except Fault (Option Slot)

/-- Make a call and answer also when it stops at a fault. -/
def run (call : WaitCall) : Action WaitRoom Answer :=
  match call with
  | enter id h => (do WaitRoom.enter id h; return none : Action WaitRoom (Option Slot)).recover
  | callNext id => (WaitRoom.callNext id).recover
  | withdraw h => (WaitRoom.withdraw h).recover

end WaitCall

/-- The queues of the semaphores on which somebody waits, and what each process records. -/
structure QueueMap where
  queues : Finmap fun _ : SemaphoreId => List Slot
  recorded : Slot → Option SemaphoreId

namespace QueueMap

/-- Nobody waits, and the processes record what their descriptors do. -/
def start (t : ProcessTable) : QueueMap := ⟨∅, fun h => (t.get h).waitsOn⟩

/-- The queue of a semaphore; without an entry nobody waits. -/
def queue (m : QueueMap) (id : SemaphoreId) : List Slot := (m.queues.lookup id).getD []

/-- The map with the queue of a semaphore replaced; the entry goes with its last process. -/
def put (m : QueueMap) (id : SemaphoreId) (queue : List Slot) : QueueMap :=
  { m with queues := if queue = [] then m.queues.erase id else m.queues.insert id queue }

/-- The map with another record for a process. -/
def record (m : QueueMap) (h : Slot) (mark : Option SemaphoreId) : QueueMap :=
  { m with recorded := Function.update m.recorded h mark }

/-- The answer to a call, and the map after it. -/
def step (m : QueueMap) : WaitCall → WaitCall.Answer × QueueMap
  | .enter id h =>
    if id ∉ m.queues ∧ m.queues.keys.card = maxProcesses then (.error .semaphorePoolExhausted, m)
    else (.ok none, (m.put id (m.queue id ++ [h])).record h (some id))
  | .callNext id =>
    match m.queue id with
    | [] => (.ok none, m)
    | h :: rest => (.ok (some h), (m.put id rest).record h none)
  | .withdraw h =>
    match m.recorded h with
    | none => (.ok none, m)
    | some id =>
      if h ∈ m.queue id then (.ok (some h), (m.put id ((m.queue id).erase h)).record h none)
      else (.ok none, m)

theorem step_enter (m : QueueMap) (id : SemaphoreId) (h : Slot) :
    m.step (.enter id h) =
      if id ∉ m.queues ∧ m.queues.keys.card = maxProcesses then
        (.error .semaphorePoolExhausted, m)
      else (.ok none, (m.put id (m.queue id ++ [h])).record h (some id)) := rfl

/-- Whether a call may be made: a process must not enter a queue in which it stands. -/
def Allows (m : QueueMap) : WaitCall → Prop
  | .enter id h => h ∉ m.queue id
  | _ => True

instance (m : QueueMap) : DecidablePred m.Allows
  | .enter id h => inferInstanceAs (Decidable (h ∉ m.queue id))
  | .callNext _ => isTrue trivial
  | .withdraw _ => isTrue trivial

/-- The map after a sequence of calls. -/
def after (m : QueueMap) : List WaitCall → QueueMap
  | [] => m
  | call :: calls => (m.step call).2.after calls

/-- The answers to a sequence of calls. -/
def answers (m : QueueMap) : List WaitCall → List WaitCall.Answer
  | [] => []
  | call :: calls => (m.step call).1 :: (m.step call).2.answers calls

/-- Whether every call of a sequence may be made when its turn comes. -/
def Permits (m : QueueMap) : List WaitCall → Prop
  | [] => True
  | call :: calls => m.Allows call ∧ (m.step call).2.Permits calls

instance decidablePermits (m : QueueMap) : ∀ calls, Decidable (m.Permits calls)
  | [] => isTrue trivial
  | call :: calls =>
    have := (m.step call).2.decidablePermits calls
    inferInstanceAs (Decidable (m.Allows call ∧ (m.step call).2.Permits calls))

variable {m : QueueMap} {id other : SemaphoreId} {q : List Slot} {h : Slot}

theorem lookup_put_self :
    (m.put id q).queues.lookup id = if q = [] then none else some q := by
  unfold put
  dsimp only
  split
  · exact Finmap.lookup_erase id m.queues
  · exact Finmap.lookup_insert m.queues

theorem lookup_put_of_ne (hne : other ≠ id) :
    (m.put id q).queues.lookup other = m.queues.lookup other := by
  unfold put
  dsimp only
  split
  · exact Finmap.lookup_erase_ne hne
  · exact Finmap.lookup_insert_of_ne _ hne

theorem queue_put : (m.put id q).queue other = if other = id then q else m.queue other := by
  unfold queue
  split
  · rename_i heq
    subst heq
    rw [lookup_put_self]
    split
    · rename_i hq
      exact hq.symm
    · rfl
  · rename_i hne
    rw [lookup_put_of_ne hne]

@[simp] theorem queue_record {mark : Option SemaphoreId} :
    (m.record h mark).queue other = m.queue other := rfl

/-- No entry of the map is empty. -/
def Trim (m : QueueMap) : Prop := ∀ id, m.queues.lookup id ≠ some []

theorem Trim.put (hm : m.Trim) : (m.put id q).Trim := by
  intro other
  by_cases heq : other = id
  · subst heq
    rw [lookup_put_self]
    split
    · exact (Option.some_ne_none []).symm
    · rename_i hq
      exact fun h => hq (Option.some.inj h)
  · rw [lookup_put_of_ne heq]
    exact hm other

theorem Trim.mem_iff (hm : m.Trim) : id ∈ m.queues ↔ m.queue id ≠ [] := by
  have := hm id
  simp only [queue, Finmap.mem_iff]
  cases hlookup : m.queues.lookup id with
  | none => simp
  | some q =>
    rw [hlookup] at this
    simpa using fun hq : q = [] => this (congrArg some hq)

end QueueMap

/-- A wait room stands for a map: the same processes wait in the same order, and except for what
they record the processes are those of `t`. -/
structure WaitRoom.StandsFor (t : ProcessTable) (r : WaitRoom) (m : QueueMap) : Prop where
  waits : r.waits.Valid
  trim : m.Trim
  waiting : ∀ id, r.waits.waiting id = m.queue id
  descriptor : ∀ h, r.processes.get h = { t.get h with waitsOn := m.recorded h }
  inUse : r.processes.inUse = t.inUse
  free : r.processes.free = t.free

namespace WaitRoom.StandsFor

open Outcome

variable {t : ProcessTable} {r s : WaitRoom} {m : QueueMap} {id : SemaphoreId} {h : Slot}

theorem start (t : ProcessTable) : StandsFor t ⟨t, .empty⟩ (QueueMap.start t) where
  waits := WaitLists.valid_empty
  trim := fun id => by
    simp only [QueueMap.start, Finmap.lookup_empty]
    exact (Option.some_ne_none []).symm
  waiting := fun id => by
    simp only [QueueMap.queue, QueueMap.start, Finmap.lookup_empty]
    rfl
  descriptor := fun _ => rfl
  inUse := rfl
  free := rfl

theorem recorded (hr : StandsFor t r m) (h : Slot) :
    (r.processes.get h).waitsOn = m.recorded h := by
  rw [hr.descriptor h]

/-- The keys of the map are the semaphores that have a wait list. -/
theorem mem_ids_iff (hr : StandsFor t r m) : id ∈ r.waits.ids ↔ id ∈ m.queues := by
  rw [hr.waits.mem_ids_iff, hr.waiting, hr.trim.mem_iff]

theorem card_keys (hr : StandsFor t r m) : m.queues.keys.card = r.waits.ids.length := by
  rw [← List.toFinset_card_of_nodup hr.waits.nodup_ids]
  congr 1
  ext id
  rw [Finmap.mem_keys, List.mem_toFinset, hr.mem_ids_iff]

/-- No wait list is free exactly when the map is full. -/
theorem exhausted_iff (hr : StandsFor t r m) :
    r.waits.free.slots = [] ↔ m.queues.keys.card = maxProcesses := by
  have hlen := hr.waits.length_active
  rw [hr.card_keys, hr.waits.length_ids, ← List.length_eq_zero_iff]
  omega

/-- Nobody can enter a queue that needs a wait list when none is free. -/
theorem enter_refused (hr : StandsFor t r m)
    (hfull : id ∉ m.queues ∧ m.queues.keys.card = maxProcesses) :
    enter id h r = .fault .semaphorePoolExhausted r [] := by
  have hq : r.waits.waiting id = [] := by
    rw [hr.waiting]
    exact not_not.1 (mt hr.trim.mem_iff.2 hfull.1)
  exact enter_of_exhausted hr.waits hq (hr.exhausted_iff.2 hfull.2)

theorem requeued {queue : List Slot} {mark : Option SemaphoreId} (hr : StandsFor t r m)
    (hs : r.Requeued id queue h mark s) : StandsFor t s ((m.put id queue).record h mark) where
  waits := hs.waits
  trim := hr.trim.put
  waiting := fun other => by
    rw [hs.waiting, QueueMap.queue_record, QueueMap.queue_put, hr.waiting]
  descriptor := fun g => by
    rw [hs.processes, ProcessTable.get_modify]
    unfold QueueMap.record QueueMap.put
    dsimp only
    by_cases hg : h = g
    · subst hg
      rw [if_pos rfl, Function.update_self, hr.descriptor]
    · rw [if_neg hg, Function.update_of_ne (Ne.symm hg), hr.descriptor]
  inUse := by
    rw [hs.processes]
    exact hr.inUse
  free := by
    rw [hs.processes]
    exact hr.free

/-- The room answers a call as the map does and then stands for the map after it. -/
theorem run_call {call : WaitCall} (hr : StandsFor t r m) (hallowed : m.Allows call) :
    (call.run r).Finishes fun a s => a = (m.step call).1 ∧ StandsFor t s (m.step call).2 := by
  cases call with
  | enter id h =>
    have hh : h ∉ r.waits.waiting id := by
      rw [hr.waiting]
      exact hallowed
    unfold WaitCall.run QueueMap.step Finishes
    simp only [Action.ends_recover, Action.ends_bind, Action.ends_pure]
    by_cases hfull : id ∉ m.queues ∧ m.queues.keys.card = maxProcesses
    · rw [if_pos hfull, hr.enter_refused hfull]
      exact ⟨rfl, hr⟩
    · have hroom : r.waits.waiting id ≠ [] ∨ r.waits.free.slots ≠ [] := by
        rw [hr.waiting, ← hr.trim.mem_iff, Ne, hr.exhausted_iff]
        exact (not_and_or.1 hfull).imp_left not_not.1
      rw [if_neg hfull]
      refine (enter_finishes hr.waits hroom hh).ends fun _ s hs => ⟨rfl, ?_⟩
      rw [hr.waiting] at hs
      exact hr.requeued hs
  | callNext id =>
    unfold WaitCall.run QueueMap.step Finishes
    simp only [Action.ends_recover]
    have hwaiting := hr.waiting id
    cases hq : m.queue id with
    | nil =>
      rw [callNext_of_empty (hwaiting.trans hq)]
      exact ⟨rfl, hr⟩
    | cons h rest =>
      refine (callNext_finishes hr.waits (hwaiting.trans hq)).ends ?_
      rintro _ s ⟨rfl, hs⟩
      exact ⟨rfl, hr.requeued hs⟩
  | withdraw h =>
    unfold WaitCall.run QueueMap.step Finishes
    simp only [Action.ends_recover]
    have hrecorded := hr.recorded h
    cases hid : m.recorded h with
    | none =>
      rw [withdraw_of_absent fun id hid' => by rw [hrecorded, hid] at hid'; cases hid']
      exact ⟨rfl, hr⟩
    | some id =>
      dsimp only
      split
      · rename_i hmem
        refine (withdraw_finishes hr.waits (hrecorded.trans hid)
          (by rw [hr.waiting]; exact hmem)).ends ?_
        rintro _ s ⟨rfl, hs⟩
        rw [hr.waiting] at hs
        exact ⟨rfl, hr.requeued hs⟩
      · rename_i hmem
        rw [withdraw_of_absent fun id' hid' => by
          rw [hrecorded, hid] at hid'
          cases hid'
          rw [hr.waiting]
          exact hmem]
        exact ⟨rfl, hr⟩

/-- The room answers every sequence of permitted calls as the map does. -/
theorem run_calls {calls : List WaitCall} (hr : StandsFor t r m) (hpermitted : m.Permits calls) :
    ((calls.mapM WaitCall.run) r).Finishes fun as s =>
      as = m.answers calls ∧ StandsFor t s (m.after calls) := by
  induction calls generalizing r m with
  | nil => exact ⟨rfl, hr⟩
  | cons call calls ih =>
    rw [List.mapM_cons]
    refine Action.ends_andThen (hr.run_call hpermitted.1) ?_
    rintro _ s ⟨rfl, hs⟩
    refine Action.ends_andThen (ih hs hpermitted.2) ?_
    rintro _ u ⟨rfl, hu⟩
    exact ⟨rfl, hu⟩

/-- A call that changes nothing in the map leaves the room exactly as it is. -/
theorem run_call_of_refused {call : WaitCall} (hr : StandsFor t r m) (hallowed : m.Allows call)
    (hsame : (m.step call).2 = m) : ∃ a, call.run r = .ok a r [] := by
  have hqueue : ∀ id, (m.step call).2.queue id = m.queue id := fun id => by rw [hsame]
  cases call with
  | enter id h =>
    by_cases hfull : id ∉ m.queues ∧ m.queues.keys.card = maxProcesses
    · refine ⟨.error .semaphorePoolExhausted, ?_⟩
      unfold WaitCall.run Action.recover
      simp only [Action.bind_apply, hr.enter_refused hfull]
    · have := hqueue id
      rw [QueueMap.step_enter, if_neg hfull, QueueMap.queue_record, QueueMap.queue_put,
        if_pos rfl] at this
      exact absurd this (by simp)
  | callNext id =>
    cases hq : m.queue id with
    | nil =>
      unfold WaitCall.run Action.recover
      simp only [callNext_of_empty ((hr.waiting id).trans hq)]
      exact ⟨_, rfl⟩
    | cons h rest =>
      have := hqueue id
      unfold QueueMap.step at this
      simp only [hq, QueueMap.queue_record, QueueMap.queue_put, if_pos] at this
      exact absurd this (List.cons_ne_self h rest).symm
  | withdraw h =>
    have habsent : ∀ id, (r.processes.get h).waitsOn = some id → h ∉ r.waits.waiting id := by
      intro id hid hmem
      rw [hr.recorded] at hid
      rw [hr.waiting] at hmem
      have := hqueue id
      unfold QueueMap.step at this
      simp only [hid, if_pos hmem, QueueMap.queue_record, QueueMap.queue_put, if_pos] at this
      have := congrArg List.length this
      rw [List.length_erase_of_mem hmem] at this
      have := List.length_pos_of_mem hmem
      omega
    unfold WaitCall.run Action.recover
    simp only [withdraw_of_absent habsent]
    exact ⟨_, rfl⟩

end WaitRoom.StandsFor

/-- What can be seen of a wait room that stands for a map. -/
structure WaitRoom.Shows (t : ProcessTable) (r : WaitRoom) (m : QueueMap) : Prop where
  /-- The semaphores with a wait list are the keys of the map, in ascending order. -/
  ascending : r.waits.ids.Pairwise fun a b => a.rank < b.rank
  keys : ∀ id, id ∈ r.waits.ids ↔ id ∈ m.queues
  /-- There are never more keys than wait lists. -/
  bounded : m.queues.keys.card ≤ maxProcesses
  /-- Somebody waits in every entry, and nobody twice. -/
  entries : ∀ id q, m.queues.lookup id = some q → q ≠ [] ∧ q.Nodup
  waiting : ∀ id, r.waits.waiting id = m.queue id
  waiterCount : ∀ id, r.waits.waiterCount id = (m.queue id).length
  oldest : ∀ id, r.waits.oldest id = (m.queue id).head?
  freeCount : r.waits.freeCount = maxProcesses - m.queues.keys.card
  /-- A process has nothing changed but the semaphore that it records. -/
  descriptor : ∀ h, r.processes.get h = { t.get h with waitsOn := m.recorded h }
  inUse : r.processes.inUse = t.inUse
  free : r.processes.free = t.free
  /-- A call that changes nothing in the map leaves the room exactly as it is. -/
  refused : ∀ call, m.Allows call → (m.step call).2 = m → ∃ a, call.run r = .ok a r []

theorem WaitRoom.StandsFor.shows {t : ProcessTable} {r : WaitRoom} {m : QueueMap}
    (hr : StandsFor t r m) : Shows t r m where
  ascending := hr.waits.pairwise_ids
  keys := fun _ => hr.mem_ids_iff
  bounded := by
    have := hr.waits.length_active
    rw [hr.card_keys, hr.waits.length_ids]
    omega
  entries := fun id q hq => by
    have hqueue : m.queue id = q := by
      simp only [QueueMap.queue, hq]
      rfl
    rw [← hqueue, ← hr.waiting id]
    exact ⟨fun hnil => hr.trim id (by rw [hq, ← hqueue, ← hr.waiting id, hnil]),
      hr.waits.nodup_waiting id⟩
  waiting := hr.waiting
  waiterCount := fun id => congrArg List.length (hr.waiting id)
  oldest := fun id => congrArg List.head? (hr.waiting id)
  freeCount := by rw [hr.waits.freeCount_eq, hr.card_keys]
  descriptor := hr.descriptor
  inUse := hr.inUse
  free := hr.free
  refused := fun _ => hr.run_call_of_refused

/-- From empty wait lists on, whatever calls are made, no check breaks, the wait room gives the
answers of the map of queues, and it always shows that map. -/
theorem waitRoom_refines_queueMap (t : ProcessTable) (calls : List WaitCall)
    (h : (QueueMap.start t).Permits calls) :
    ∃ r log, (calls.mapM WaitCall.run) ⟨t, .empty⟩ =
        .ok ((QueueMap.start t).answers calls) r log ∧
      WaitRoom.Shows t r ((QueueMap.start t).after calls) := by
  obtain ⟨_, r, log, hrun, rfl, hr⟩ := ((WaitRoom.StandsFor.start t).run_calls h).exists
  exact ⟨r, log, hrun, hr.shows⟩

/-- A process waits in two queues at once, leaves the first as its head, records nothing any more
and so is not taken out of the second until it enters again. -/
theorem waitRoom_refines_queueMap_two_queues :
    ∃ r log, ([.enter .clock 3, .enter (.user 0x20001000) 3, .enter .clock 5, .callNext .clock,
        .withdraw 3, .enter .clock 3, .withdraw 3].mapM WaitCall.run) ⟨.empty, .empty⟩ =
        .ok [.ok none, .ok none, .ok none, .ok (some 3), .ok none, .ok none, .ok (some 3)]
          r log ∧
      r.waits.waiting .clock = [5] ∧ r.waits.waiting (.user 0x20001000) = [3] ∧
      r.waits.freeCount = 18 := by
  obtain ⟨r, log, hrun, hshows⟩ := waitRoom_refines_queueMap .empty
    [.enter .clock 3, .enter (.user 0x20001000) 3, .enter .clock 5, .callNext .clock,
      .withdraw 3, .enter .clock 3, .withdraw 3] (by decide +kernel)
  refine ⟨r, log, hrun.trans ?_, ?_, ?_, ?_⟩
  · congr 1
  · rw [hshows.waiting]
    decide +kernel
  · rw [hshows.waiting]
    decide +kernel
  · rw [hshows.freeCount]
    decide +kernel

end Nucleus
