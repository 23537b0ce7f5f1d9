import Nucleus.Proofs.Kernel.Boot
import Nucleus.Proofs.Kernel.Deeds
import Nucleus.Proofs.Kernel.Uses
import Nucleus.Proofs.Notices

/-!
# Courses of actions

Whatever an action of the nucleus leaves is reached by a course of deeds, and the notices that it
gives report the moves among them (`Kernel.Along`). This module shows it of every action up to the
services, the interrupts and the exceptions, and says for each which deeds it is composed of.
-/

namespace Nucleus

namespace Kernel

open Outcome

variable {k k' : Kernel} {h g caller : Slot} {id : SemaphoreId} {pid : Pid} {α β : Type}
  {allowed : Deed → Prop} {ok : α → Kernel → Prop} {ok' : β → Kernel → Prop}

/-- Whatever an action leaves is reached by a course of permitted deeds, whose moves it reports; and
`ok` holds of its value. -/
def Along (allowed : Deed → Prop) (k : Kernel) (o : Outcome Kernel α) (ok : α → Kernel → Prop) :
    Prop :=
  o.Tells (fun a k' log => Course allowed k (moves log) k' ∧ ok a k')
    fun _ k' log => Course allowed k (moves log) k'

namespace Along

theorem mono {o : Outcome Kernel α} {okLater : α → Kernel → Prop} (h : Along allowed k o ok)
    (himp : ∀ a k', ok a k' → okLater a k') : Along allowed k o okLater :=
  Tells.mono h (fun _ _ _ h => ⟨h.1, himp _ _ h.2⟩) fun _ _ _ h => h

theorem weaken {allowed' : Deed → Prop} {o : Outcome Kernel α} (h : Along allowed k o ok)
    (himp : ∀ deed, allowed deed → allowed' deed) : Along allowed' k o ok :=
  Tells.mono h (fun _ _ _ h => ⟨h.1.mono himp, h.2⟩) fun _ _ _ h => h.mono himp

/-- What is left, if a state is, is reached by the course that the notices report. -/
theorem course {o : Outcome Kernel α} (h : Along allowed k o ok) (hs : o.state? = some k') :
    Course allowed k (moves o.log) k' := by
  cases o with
  | ok a s log => exact Option.some.inj hs ▸ h.1
  | fault cause s log => exact Option.some.inj hs ▸ h
  | abort cause => cases hs

/-- What follows a course is a longer course. -/
theorem of_course {o : Outcome Kernel α} (hc : Course allowed k [] k')
    (h : Along allowed k' o ok) : Along allowed k o ok :=
  Tells.mono h (fun _ _ _ h => ⟨hc.append h.1, h.2⟩) fun _ _ _ h => hc.append h

/-- One action after another. -/
theorem bind {x : Action Kernel α} {f : α → Action Kernel β} (hk : k.Accounted)
    (hx : Along allowed k (x k) ok)
    (hf : ∀ a k', k'.Accounted → ok a k' → Along allowed k' (f a k') ok') :
    Along allowed k ((x >>= f) k) ok' := by
  refine Action.tells_bind.2 (Tells.mono hx ?_ fun _ _ _ h => h)
  rintro a k₁ log ⟨hc, ha⟩
  refine Tells.mono (hf a k₁ (hc.accounted hk) ha) ?_ ?_
  · rintro b k₂ rest ⟨hc', hb⟩
    rw [moves_append]
    exact ⟨hc.append hc', hb⟩
  · intro _ k₂ rest hc'
    rw [moves_append]
    exact hc.append hc'

theorem discard {x : Action Kernel α} (hx : Along allowed k (x k) ok) :
    Along allowed k ((Functor.discard x : Action Kernel Unit) k) fun _ k' => ∃ a, ok a k' :=
  Action.tells_discard.2 (Tells.mono hx (fun a _ _ h => ⟨h.1, a, h.2⟩) fun _ _ _ h => h)

/-- Nothing happens. -/
theorem pure {a : α} (ha : ok a k) : Along allowed k ((Pure.pure a : Action Kernel α) k) ok :=
  ⟨.refl k, ha⟩

theorem fail (cause : Fault) : Along allowed k ((Action.fail cause : Action Kernel α) k) ok :=
  .refl k

/-- A notice that reports no move. -/
theorem note {notice : Notice} {done : Unit → Kernel → Prop} (hquiet : notice.move? = none)
    (hdone : done () k) : Along allowed k (Action.note notice k) done := by
  refine ⟨?_, hdone⟩
  rw [show moves [notice] = [] by simp [moves, hquiet]]
  exact .refl k

theorem note_bind {notice : Notice} {f : Unit → Action Kernel α} (hquiet : notice.move? = none)
    (h : Along allowed k (f () k) ok) : Along allowed k ((Action.note notice >>= f) k) ok := by
  have hmoves : ∀ log, moves ([notice] ++ log) = moves log := fun log => by
    simp [moves, hquiet]
  rw [Action.note_bind_apply]
  refine tells_after.2 (Tells.mono h ?_ ?_)
  · intro a k' log hc
    rwa [hmoves]
  · intro cause k' log hc
    rwa [hmoves]

/-- A notice that is given in one case, before the same rest. -/
theorem if_note {c : Prop} [Decidable c] {notice : Notice} {f : Unit → Action Kernel α}
    (hquiet : notice.move? = none) (h : Along allowed k (f () k) ok) :
    Along allowed k ((if c then Action.note notice >>= f else f ()) k) ok := by
  split
  · exact note_bind hquiet h
  · exact h

/-- A change that is no move. -/
theorem change {f : Kernel → Kernel} {done : Unit → Kernel → Prop}
    (hc : Course allowed k [] (f k)) (hdone : done () (f k)) :
    Along allowed k (Action.change f k) done := ⟨hc, hdone⟩

/-- A change that is no move and may break a check. -/
theorem attempt {f : Kernel → Except Abort Kernel} {done : Unit → Kernel → Prop}
    (h : ∀ k', f k = .ok k' → Course allowed k [] k' ∧ done () k') :
    Along allowed k (Action.attempt f k) done := Action.tells_attempt h

theorem check {x : Except Abort α} (h : ∀ a, x = .ok a → ok a k) :
    Along allowed k (Action.check x k) ok :=
  Action.tells_check fun a ha => ⟨.refl k, h a ha⟩

end Along

/-! ## Moving processes -/

theorem enter_tells (id : SemaphoreId) (h : Slot) (r : WaitRoom) :
    (WaitRoom.enter id h r).Tells (fun _ _ log => log = [.blocked (r.processes.get h).pid id])
      fun _ _ log => log = [] := by
  unfold WaitRoom.enter
  cases r.waits.assign id with
  | none => exact rfl
  | some assigned =>
    dsimp only
    cases (assigned.2.queueAt assigned.1).enqueue h with
    | ok queue => exact rfl
    | error cause => trivial

theorem suspend_tells (hh : k.current = some h) (id : SemaphoreId) (wait : WaitKind) :
    (suspend id wait k).Tells (fun _ _ log => log = [.blocked (k.pidAt h) id])
      fun _ _ log => log = [] := by
  unfold suspend WaitRoom.onKernel
  rw [Action.tells_bind, Action.tells_look, hh]
  simp only [Action.tells_bind, Action.tells_within, Action.tells_change, List.nil_append]
  refine (enter_tells id h k.toWaitRoom).mono ?_ fun _ _ _ h => h
  rintro _ room log rfl
  split
  · rw [Action.tells_bind]
    exact Action.tells_attempt fun t _ => rfl
  · exact rfl

/-- The running process blocks, or nothing happens for want of a wait list. -/
theorem suspend_along (hk : k.Accounted) (hh : k.current = some h)
    (hd : allowed (.block h id)) :
    Along allowed k (suspend id id.waitKind k) fun _ k' =>
      k.Moved h .processor (.waitList id) k' := by
  have hends := Ends.and_always (suspend_ends hk hh) (suspend_sameWorld id _ k)
  refine (hends.tells (suspend_tells hh id _)).mono ?_ ?_
  · rintro _ k' log ⟨⟨hm, hw⟩, rfl⟩
    exact ⟨.single hd (.block hh hm hw), hm⟩
  · rintro _ k' log ⟨⟨⟨-, rfl⟩, -⟩, rfl⟩
    exact .refl k'

theorem callNext_tells (id : SemaphoreId) (r : WaitRoom) :
    (WaitRoom.callNext id r).Tells
      (fun a _ log => log = a.toList.map fun h => .woke (r.processes.get h).pid id)
      fun _ _ log => log = [] := by
  unfold WaitRoom.callNext
  cases r.waits.find id with
  | none => exact rfl
  | some i =>
    dsimp only
    cases (r.waits.queueAt i).dequeue with
    | none => exact rfl
    | some headAndRest =>
      dsimp only
      cases r.waits.shrink i headAndRest.2 with
      | error cause => trivial
      | ok waits => exact rfl

theorem wakeNext_tells (id : SemaphoreId) (k : Kernel) :
    (wakeNext id k).Tells
      (fun a _ log => log = a.toList.map fun h => .woke (k.pidAt h) id)
      fun _ _ _ => True := by
  unfold wakeNext WaitRoom.onKernel
  rw [Action.tells_bind, Action.tells_within]
  refine (callNext_tells id k.toWaitRoom).mono ?_ fun _ _ _ _ => trivial
  rintro a room log rfl
  cases a with
  | none => exact rfl
  | some h =>
    simp only [Action.tells_bind, Action.tells_look, List.nil_append]
    split
    · rw [Action.tells_bind]
      refine Action.tells_attempt fun _ _ => ?_
      rw [Action.tells_bind, Action.tells_change, Action.tells_bind]
      exact Action.tells_attempt fun _ _ => rfl
    · rw [Action.tells_bind, Action.tells_change, Action.tells_bind]
      exact Action.tells_attempt fun _ _ => rfl

/-- Nobody waits on the semaphore, or its oldest waiter has become ready. -/
def WakeResult (k : Kernel) (id : SemaphoreId) (woken : Option Slot) (k' : Kernel) : Prop :=
  (k.waits.waiting id = [] ∧ woken = none ∧ k' = k) ∨
    ∃ h rest, k.waits.waiting id = h :: rest ∧ woken = some h ∧ k.Moved h (.waitList id) .ready k'

theorem wakeNext_along (hk : k.Accounted) (hd : ∀ h, allowed (.wake h id)) :
    Along allowed k (wakeNext id k) fun woken k' => k.WakeResult id woken k' := by
  cases hq : k.waits.waiting id with
  | nil =>
    rw [wakeNext_of_empty hq]
    exact ⟨.refl k, .inl ⟨hq, rfl, rfl⟩⟩
  | cons h rest =>
    have hends := (wakeNext_finishes hk hq).and_always (wakeNext_sameWorld id k)
    refine (Ends.tells hends (wakeNext_tells id k)).mono ?_ fun _ _ _ h => h.1.elim
    rintro _ k' log ⟨⟨⟨rfl, hm⟩, hw⟩, rfl⟩
    exact ⟨.single (hd h) (.wake hq hm hw), .inr ⟨h, rest, hq, rfl, hm⟩⟩

/-! ## Families -/

/-- The table with a new process in a slot that was handed out. -/
def grow (u : ProcessTable) (h : Slot) (pid : Pid) (state : ProcessorState)
    (parent : Option Slot) : ProcessTable :=
  match parent with
  | none => u.modify h ({ · with pid, state })
  | some p => (u.modify h ({ · with pid, state })).attach p h

theorem linking_of_grow {u : ProcessTable} {parent : Option Slot}
    (ha : k.processes.Allocated h u)
    (hparent : ∀ p, parent = some p → k.processes.isUsed p = true) (state : ProcessorState)
    (hk' : k'.processes = grow u h pid state parent) : k.Linking h parent k' := by
  have hothers : ∀ g, h ≠ g →
      (u.modify h ({ · with pid, state })).get g = k.processes.get g := fun g hg => by
    rw [ProcessTable.get_modify, if_neg hg, ha.get_of_ne hg]
  cases parent with
  | none =>
    refine ⟨?_, fun g hg => ⟨(k.processes.get g).children, ?_⟩⟩
    · rw [hk']
      exact ha.parentAt_modify pid state
    · rw [hk']
      exact hothers g hg
  | some p =>
    have hne : p ≠ h := by
      rintro rfl
      exact Bool.false_ne_true (ha.wasFree.symm.trans (hparent p rfl))
    refine ⟨?_, fun g hg => ?_⟩
    · rw [hk', grow, ProcessTable.get_attach hne, if_pos rfl]
    · rw [hk', grow, ProcessTable.get_attach hne, if_neg hg]
      split
      · rename_i heq
        subst heq
        exact ⟨_, by rw [hothers p hg]⟩
      · exact ⟨(k.processes.get g).children, hothers g hg⟩

theorem eq_succ_of_ok {w : Word} (h : Word.succ w = .ok pid) :
    w ≠ Word.allOnes ∧ pid = w + 1 := by
  unfold Word.succ at h
  split at h
  · cases h
  · rename_i hw
    exact ⟨hw, (Except.ok.inj h).symm⟩

theorem processes_of_makeReady (h : k.makeReady g = .ok k') : k'.processes = k.processes := by
  unfold makeReady at h
  cases hqueue : k.ready.enqueue g <;> rw [hqueue] at h <;> cases h
  rfl

theorem processes_of_liveUp
    (h : (do return { k with liveCount := ← Word.succ k.liveCount }) = Except.ok k') :
    k'.processes = k.processes := by
  cases hsucc : Word.succ k.liveCount <;> rw [hsucc] at h <;> cases h
  rfl

/-- What `create` makes of the table, and the notice that it gives. -/
theorem create_tells (state : ProcessorState) (parent : Option Slot) (k : Kernel) :
    (create state parent k).Tells
      (fun result k' log =>
        moves log = result.toList.map (fun _ => ⟨k.lastPid + 1, some .ready⟩) ∧
          ∀ h, result = some h → k.lastPid ≠ Word.allOnes ∧
            ∃ u, k.processes.allocate = some (h, u) ∧
              k'.processes = grow u h (k.lastPid + 1) state parent)
      fun _ _ _ => True := by
  simp only [create, Action.tells_bind, Action.tells_look]
  cases halloc : k.processes.allocate with
  | none => exact ⟨rfl, fun _ hnone => by cases hnone⟩
  | some slotAndTable =>
    obtain ⟨h, u⟩ := slotAndTable
    simp only [Action.tells_bind, Action.tells_look, Action.tells_change]
    refine Action.tells_check fun pid hpid => ?_
    obtain ⟨hlast, rfl⟩ := eq_succ_of_ok hpid
    refine Action.tells_attempt fun k₁ hk₁ => ?_
    have htable : k₁.processes = u.modify h ({ · with pid := k.lastPid + 1, state }) := by
      dsimp only at hk₁
      split at hk₁ <;> cases hk₁
      rfl
    have hgrown : ∀ {k₂ : Kernel}, k₂.processes = grow u h (k.lastPid + 1) state parent →
        ∀ g, some h = some g → k.lastPid ≠ Word.allOnes ∧ ∃ t, some (h, u) = some (g, t) ∧
          k₂.processes = grow t g (k.lastPid + 1) state parent := by
      rintro k₂ hk₂ g ⟨⟩
      exact ⟨hlast, u, rfl, hk₂⟩
    cases parent with
    | none =>
      simp only [Action.tells_bind]
      refine Action.tells_attempt fun k₂ hk₂ => Action.tells_attempt fun k₃ hk₃ =>
        ⟨rfl, hgrown ?_⟩
      rw [processes_of_liveUp hk₃, processes_of_makeReady hk₂, htable]
      rfl
    | some p =>
      simp only [Action.tells_bind, Action.tells_change]
      refine Action.tells_attempt fun k₂ hk₂ => Action.tells_attempt fun k₃ hk₃ =>
        ⟨rfl, hgrown ?_⟩
      rw [processes_of_liveUp hk₃, processes_of_makeReady hk₂, htable]
      rfl

/-- A process is created, or nothing happens because no slot is free. -/
theorem create_along (hk : k.Sound) (state : ProcessorState) (parent : Option Slot)
    (hparent : ∀ p, parent = some p → k.processes.isUsed p = true)
    (hd : ∀ h, allowed (.enroll h parent)) :
    Along allowed k (create state parent k) fun result k' => k.CreateResult result k' := by
  have hends := (hk.create state parent hparent).and_always (create_sameWorld state parent k)
  refine (hends.tells (create_tells state parent k)).mono ?_ fun _ _ _ h => h.1.1.elim
  rintro result k' log ⟨⟨⟨-, hresult⟩, hw⟩, hmoves, hlinks⟩
  refine ⟨?_, hresult⟩
  rw [hmoves]
  rcases hresult with ⟨rfl, rfl, -⟩ | ⟨h, rfl, he⟩
  · exact .refl k'
  · obtain ⟨hlast, u, halloc, htable⟩ := hlinks h rfl
    have hl := linking_of_grow (hk.table.allocate halloc) hparent state htable
    exact .single (hd h) (.enroll hlast he hl hw)

theorem withdraw_silent (h : Slot) (k : Kernel) :
    (WaitRoom.onKernel (WaitRoom.withdraw h) k).Silent := by
  unfold WaitRoom.onKernel Silent
  rw [Action.tells_within]
  unfold WaitRoom.withdraw
  cases (k.processes.get h).waitsOn.bind k.waits.find with
  | none => exact rfl
  | some i =>
    dsimp only
    cases (k.waits.queueAt i).take h with
    | none => exact rfl
    | some rest =>
      dsimp only
      cases k.waits.shrink i rest with
      | error cause => trivial
      | ok waits => exact rfl

theorem leaveQueue_silent (h : Slot) (k : Kernel) : (leaveQueue h k).Silent := by
  have hwithdraw : ∀ k : Kernel, ((discard (WaitRoom.onKernel (WaitRoom.withdraw h)) :
      Action Kernel Unit) k).Silent := fun k => Action.silent_discard (withdraw_silent h k)
  unfold leaveQueue
  refine Action.silent_bind (s := k) rfl fun d k => ?_
  cases d.wait with
  | none => exact rfl
  | semaphore =>
    cases d.waitsOn with
    | some id => exact Action.silent_bind (s := k) rfl fun _ => hwithdraw
    | none => exact hwithdraw k
  | clock =>
    refine Action.silent_bind (s := k) rfl fun _ k => ?_
    exact Action.silent_bind (hwithdraw k) fun _ _ => Action.silent_attempt
  | device => exact Action.silent_bind (hwithdraw k) fun _ _ => Action.silent_attempt

theorem retire_tells (h : Slot) (k : Kernel) :
    (retire h k).Tells (fun _ _ log => log = [.terminated (k.pidAt h)])
      fun _ _ log => log = [] := by
  simp only [retire, Action.tells_bind, Action.tells_look, Action.tells_change, List.nil_append]
  refine (leaveQueue_silent h _).mono ?_ fun _ _ _ h => h
  rintro _ k₁ _ rfl
  exact Action.tells_attempt fun _ _ => Action.tells_attempt fun _ _ => rfl

theorem statuses_refund (k : Kernel) (h : Slot) :
    (k.refund h).values.statuses = k.values.statuses := by
  have hadd : ∀ id, (k.add id 1).values.statuses = k.values.statuses := fun id => by
    cases id <;> rfl
  unfold refund
  split
  · exact hadd _
  · exact hadd _
  · rfl

theorem retire_along (hk : k.Accounted) (hh : k.processes.isUsed h = true)
    (hchildren : k.processes.children h = []) (hd : allowed (.retire h)) :
    Along allowed k (retire h k) fun _ k' => k.Retired h k' := by
  have hends := (retire_finishes hk hh).and_always (retire_sameWorld h k)
  refine (Ends.tells hends (retire_tells h k)).mono ?_ fun _ _ _ h => h.1.elim
  rintro _ k' log ⟨⟨hr, hw⟩, rfl⟩
  have hs : k'.values.statuses = k.values.statuses :=
    (congrArg SemaphoreValues.statuses hw.values).trans (statuses_refund _ h)
  exact ⟨.single hd (.retire hh hchildren hr hs), hr⟩

/-- Processes that are listed after their children are retired one after the other. -/
theorem retireAll_along {hs : List Slot} (hk : k.Accounted) (hl : k.Retirable hs)
    (hd : ∀ h, allowed (.retire h)) :
    Along allowed k (hs.forM retire k) fun _ k' => k.Dismissed hs k' := by
  induction hs generalizing k with
  | nil => exact .pure (.refl k)
  | cons h hs ih =>
    refine (retire_along hk hl.head hl.children_head (hd h)).bind hk fun _ k₁ hk₁ hr => ?_
    exact (ih hk₁ (hl.tail hr)).mono fun _ _ hgone => .cons hk hr hgone

theorem terminate_along (hk : k.Accounted) (pid : Pid) (hd : ∀ h, allowed (.retire h)) :
    Along allowed k (terminate pid k) fun found k' => k.TerminateResult pid found k' := by
  cases hlookup : k.pids.lookup pid with
  | none =>
    rw [terminate_of_dead hlookup]
    exact .pure (.inl ⟨hlookup, rfl, rfl⟩)
  | some victim =>
    obtain ⟨hvictim, -⟩ := hk.indexed.lookup_eq_some_iff.1 hlookup
    rw [terminate_of_live hlookup]
    refine (retireAll_along hk (hk.retirable hvictim) hd).bind hk ?_
    exact fun _ k' _ hgone => .pure (.inr ⟨victim, hlookup, rfl, hgone⟩)

/-! ## Changes that are no moves -/

theorem add_course (hd : allowed .world) (k : Kernel) (id : SemaphoreId) (delta : Count) :
    Course allowed k [] (k.add id delta) := by
  refine .world hd ⟨rfl, rfl, rfl, rfl, rfl, rfl, rfl, ?_⟩
  cases id <;> rfl

theorem giveResult_along (hh : k.processes.isUsed h = true) (value : Kernel → Word)
    (hd : allowed (.result h (value k))) :
    Along allowed k (Action.change (fun k => k.giveResult h (value k)) k) fun _ _ => True :=
  .change (.quiet _ hd (.result hh (value k)) rfl) trivial

theorem setMachine_course (hd : allowed .world) (k : Kernel) (machine : Machine) :
    Course allowed k [] { k with machine } := .world hd (k.sameProcesses_setMachine machine)

theorem gatherTick_course (hd : allowed .world) (k : Kernel) : Course allowed k [] k.gatherTick :=
  .world hd k.sameProcesses_gatherTick

theorem setTimer_course (hd : allowed .world) (k : Kernel) (micros : Word) :
    Course allowed k [] (k.setTimer micros) := setMachine_course hd k _

theorem charge_of_current (hh : k.current = some h) :
    ∃ micros chargedUntil, k.charge = { k with chargedUntil }.modify h (·.charge micros) :=
  ⟨_, _, charge_eq hh⟩

theorem charge_course (hh : k.current = some h) (hd : allowed .world)
    (hd' : ∀ micros, allowed (.charge h micros)) : Course allowed k [] k.charge := by
  obtain ⟨micros, chargedUntil, heq⟩ := charge_of_current hh
  rw [heq]
  have hclock : k.SameProcesses { k with chargedUntil } :=
    ⟨rfl, rfl, rfl, rfl, rfl, rfl, rfl, rfl⟩
  exact (Course.world hd hclock).append
    (.quiet _ (hd' micros) (.charge (k := { k with chargedUntil }) hh micros) rfl)

theorem modify_congr {e f : Descriptor → Descriptor}
    (hf : e (k.processes.get h) = f (k.processes.get h)) : k.modify h e = k.modify h f := by
  unfold modify ProcessTable.modify Table.modify
  rw [show e (k.processes.descriptors.get h) = f (k.processes.descriptors.get h) from hf]

theorem announce_course (hh : k.current = some h) {f : Descriptor → Descriptor}
    (handlers : Table ExceptionClass.count (Option Handler))
    (announced : Table ExceptionClass.count Word)
    (hf : f (k.processes.get h) = { k.processes.get h with handlers, announced })
    (hd : ∀ handlers announced, allowed (.announce h handlers announced)) :
    Course allowed k [] (k.modify h f) := by
  rw [modify_congr (f := ({ · with handlers, announced })) hf]
  exact .quiet _ (hd handlers announced) (.announce hh handlers announced) rfl

/-! ## Services -/

/-- Whether the service creates a process. -/
def creates : Service → Bool
  | .create _ => true
  | .terminate _ | .signal _ | .wait _ | .pid | .usedTime | .waitClock | .waitDevice _ _ _
  | .parentPid | .announce _ _ => false

/-- The deeds of a service to `caller`. It either creates a process or may terminate some. -/
def ByService (caller : Slot) (creates : Bool) : Deed → Prop
  | .world | .wake _ _ => True
  | .result h _ | .charge h _ | .announce h _ _ | .block h _ => h = caller
  | .enroll _ parent => creates = true ∧ parent = some caller
  | .retire _ => creates = false
  | .latch _ _ | .save _ _ | .expire _ | .dispatch _ => False

/-- The deeds of a service other than announcing a handler. -/
def ByRequest (caller : Slot) (creates : Bool) (deed : Deed) : Prop :=
  ByService caller creates deed ∧ deed.announces = false

theorem acquire_along (hk : k.Accounted) (hh : k.current = some caller) (id : SemaphoreId)
    (creates : Bool) :
    Along (ByRequest caller creates) k (acquire id id.waitKind k) fun went k' =>
      went = true → k'.current = some caller := by
  unfold acquire
  rw [Action.change_bind_apply]
  refine .of_course (add_course ⟨trivial, rfl⟩ k id (-1)) ?_
  have hadd : (k.add id (-1)).Accounted := hk.congr (Alike.add k id (-1)).toSameBooks
  rw [Action.look_bind_apply]
  split
  · exact Along.bind hadd (suspend_along hadd hh ⟨rfl, rfl⟩) fun _ _ _ _ => .pure nofun
  · exact .pure fun _ => hh

theorem signal_along (hk : k.Accounted) (id : SemaphoreId) (creates : Bool) :
    Along (ByRequest caller creates) k (signal id k) fun _ _ => True := by
  unfold signal
  rw [Action.change_bind_apply]
  refine .of_course (add_course ⟨trivial, rfl⟩ k id 1) ?_
  have hadd : (k.add id 1).Accounted := hk.congr (Alike.add k id 1).toSameBooks
  exact (wakeNext_along hadd fun _ => ⟨trivial, rfl⟩).discard.mono fun _ _ _ => trivial

theorem awaitDevice_along (hk : k.Accounted) (hh : k.current = some caller) (line unit : Word)
    (read creates : Bool) :
    Along (ByRequest caller creates) k (awaitDevice caller line unit read k) fun _ _ => True := by
  unfold awaitDevice
  cases (DeviceFamily.ofLine? line read).bind (Device.ofNumber? · unit) with
  | none => exact .fail _
  | some d =>
    refine (acquire_along hk hh (.device d) creates).bind hk fun went k₁ hk₁ hcurrent => ?_
    cases went with
    | true => exact giveResult_along (hk₁.used_of_current (hcurrent rfl)) (·.latched d) ⟨rfl, rfl⟩
    | false => exact .pure trivial

theorem serveCreate_along (hk : k.Sound) (hh : k.current = some caller) (stateAddress : Word) :
    Along (ByRequest caller true) k (serveCreate caller stateAddress k) fun _ _ => True := by
  unfold serveCreate
  rw [Action.look_bind_apply, Action.check_bind_apply]
  cases k.machine.readState stateAddress with
  | error cause => trivial
  | ok state =>
    have hcreate : Along (ByRequest caller true) k (create state (some caller) k) fun result k' =>
        k.CreateResult result k' :=
      create_along hk state (some caller) (hk.used_of_caller hh) fun _ => ⟨⟨rfl, rfl⟩, rfl⟩
    refine hcreate.bind hk.toAccounted ?_
    intro result k₁ hk₁ hresult
    have hcurrent : k₁.current = some caller := by
      rcases hresult with ⟨-, rfl, -⟩ | ⟨h, -, he⟩
      · exact hh
      · exact he.current.trans hh
    cases result with
    | some child =>
      exact giveResult_along (hk₁.used_of_current hcurrent) (·.pidAt child) ⟨rfl, rfl⟩
    | none =>
      refine .note_bind rfl ?_
      exact giveResult_along (hk₁.used_of_current hcurrent) (fun _ => Service.failure) ⟨rfl, rfl⟩

theorem serveTerminate_along (hk : k.Accounted) (pid : Pid) :
    Along (ByRequest caller false) k (serveTerminate caller pid k) fun _ _ => True := by
  unfold serveTerminate
  rw [Action.look_bind_apply]
  refine (terminate_along hk _ fun _ => ⟨rfl, rfl⟩).bind hk fun found k₁ hk₁ _ => ?_
  refine .change ?_ trivial
  split
  · rename_i hcurrent
    exact .quiet (.result caller _) ⟨rfl, rfl⟩ (.result (hk₁.used_of_current hcurrent) _) rfl
  · exact .refl k₁

theorem announceHandler_along (hk : k.Accounted) (hh : k.current = some caller)
    (c : ExceptionClass) (handler : Handler) :
    Along (ByService caller false) k (announceHandler caller c handler k) fun _ _ => True := by
  unfold announceHandler
  rw [Action.look_bind_apply, Action.check_bind_apply]
  cases Word.succ ((k.processes.get caller).announced.get c.place) with
  | error cause => trivial
  | ok announced =>
    dsimp only
    rw [Action.change_bind_apply]
    set k₁ := k.modify caller fun d => { d with announced := d.announced.set c.place announced }
    have hcount : Course (ByService caller false) k [] k₁ :=
      announce_course hh (k.processes.get caller).handlers _ rfl fun _ _ => rfl
    refine .of_course hcount ?_
    have hk₁ := hcount.accounted hk
    split
    · refine .note_bind rfl ?_
      exact (terminate_along hk₁ _ fun _ => rfl).discard.mono fun _ _ _ => trivial
    · have hcurrent : k₁.current = some caller := hh
      exact .change (announce_course hcurrent _ (k₁.processes.get caller).announced rfl
        fun _ _ => rfl) trivial

/-- A service other than announcing a handler leaves all handlers as they are. -/
theorem request_along (hk : k.Sound) (hh : k.current = some caller) {service : Service}
    (hother : ∀ c handler, service ≠ .announce c handler) :
    Along (ByRequest caller (creates service)) k (serve caller service k) fun _ _ => True := by
  have hused := hk.used_of_current hh
  cases service with
  | create stateAddress => exact serveCreate_along hk hh stateAddress
  | terminate pid => exact serveTerminate_along hk.toAccounted pid
  | signal address => exact signal_along hk.toAccounted _ _
  | wait address =>
    exact (acquire_along hk.toAccounted hh (.user address) _).discard.mono fun _ _ _ => trivial
  | pid => exact giveResult_along hused (·.pidAt caller) ⟨rfl, rfl⟩
  | usedTime =>
    have hcharged : k.charge.processes.isUsed caller = true :=
      ((Alike.charge k).isUsed caller).trans hused
    simp only [serve, Action.change_bind_apply]
    refine .of_course (charge_course hh ⟨trivial, rfl⟩ fun _ => ⟨rfl, rfl⟩) ?_
    exact giveResult_along hcharged (fun k => (k.processes.get caller).usedTime) ⟨rfl, rfl⟩
  | waitClock =>
    exact (acquire_along hk.toAccounted hh .clock _).discard.mono fun _ _ _ => trivial
  | waitDevice line unit read => exact awaitDevice_along hk.toAccounted hh line unit read _
  | parentPid =>
    exact giveResult_along hused
      (fun k => ((k.processes.get caller).parent.map k.pidAt).getD Service.failure) ⟨rfl, rfl⟩
  | announce c handler => exact absurd rfl (hother c handler)

theorem serve_along (hk : k.Sound) (hh : k.current = some caller) (service : Service) :
    Along (ByService caller (creates service)) k (serve caller service k) fun _ _ => True := by
  by_cases hannounce : ∃ c handler, service = .announce c handler
  · obtain ⟨c, handler, rfl⟩ := hannounce
    exact announceHandler_along hk.toAccounted hh c handler
  · push Not at hannounce
    exact (request_along hk hh hannounce).weaken fun _ hd => hd.1

/-! ## Interrupts -/

/-- The device that completes when an interrupt is served, and its status. -/
def completion? (k : Kernel) (source : InterruptSource) : Option (Device × Word) :=
  (k.completed? source).map fun d => (d, k.machine.read d.statusRegister)

/-- The deeds of an interrupt at which a device may complete. Its status goes to the process that
has waited longest, or it is latched if nobody waits. -/
def ByInterrupt (k : Kernel) (completion : Option (Device × Word)) : Deed → Prop
  | .world | .wake _ _ | .expire _ => True
  | .result h status =>
    ∃ d, completion = some (d, status) ∧ (k.waits.waiting (.device d)).head? = some h
  | .latch d status => completion = some (d, status) ∧ k.waits.waiting (.device d) = []
  | .save _ _ | .charge _ _ | .announce _ _ _ | .block _ _ | .dispatch _ | .enroll _ _
  | .retire _ => False

/-- The status of a completed device has gone to the process that had waited longest, of which
nothing else has changed, or it is latched. -/
def HandedOver (k : Kernel) (d : Device) (status : Word) (k' : Kernel) : Prop :=
  match k.waits.waiting (.device d) with
  | [] => k'.latched d = status
  | h :: _ => k'.contextAt h =
      { k.contextAt h with state := (k.contextAt h).state.withResult status }

theorem releaseClock_along (hk : k.Accounted) (hd : allowed .world)
    (hd' : ∀ h, allowed (.wake h .clock)) (n : Nat) :
    Along allowed k (releaseClock n k) fun _ _ => True := by
  induction n generalizing k with
  | zero => exact .pure trivial
  | succ n ih =>
    unfold releaseClock
    refine (wakeNext_along hk hd').discard.bind hk fun _ k₁ hk₁ _ => ?_
    rw [Action.change_bind_apply]
    have hk₂ := hk₁.congr (Alike.add k₁ .clock 1).toSameBooks
    exact .of_course (add_course hd k₁ .clock 1) (ih hk₂)

theorem tickClock_along (hk : k.Accounted) (hd : allowed .world)
    (hd' : ∀ h, allowed (.wake h .clock)) : Along allowed k (tickClock k) fun _ _ => True := by
  have htick : ∀ {k : Kernel}, Along allowed k (Action.note .clockTick k) fun _ _ => True :=
    .note rfl trivial
  unfold tickClock
  rw [Action.look_bind_apply]
  dsimp only
  split
  · exact (releaseClock_along hk hd hd' _).bind hk fun _ _ _ _ => htick
  · refine (wakeNext_along hk hd').bind hk fun woken k₁ hk₁ _ => ?_
    cases woken with
    | some h =>
      dsimp only
      rw [Action.change_bind_apply]
      exact .of_course (add_course hd k₁ .clock 1) htick
    | none =>
      dsimp only
      rw [Action.change_bind_apply]
      exact .of_course (add_course hd k₁ .clock (-1)) htick

/-- The running process goes back to the ready queue with a notice. -/
theorem expire_along (hk : k.Accounted) (hh : k.current = some h) (hd : allowed (.expire h)) :
    Along allowed k ((do
      Action.change ({ · with current := none })
      Action.note (.quantumExpired (← Action.look (·.pidAt h)))
      Action.attempt (·.makeReady h) : Action Kernel Unit) k) fun _ _ => True := by
  have hat := hk.at_processor hh
  have hready : h ∉ k.ready.items := fun hmem =>
    Place.noConfusion ((hat.mem_iff (q := .ready)).1 hmem)
  simp only [Action.change_bind_apply, Action.look_bind_apply, Along, Action.note_bind_apply,
    tells_after]
  refine Action.tells_attempt fun k₁ hk₁ => ⟨?_, trivial⟩
  rw [makeReady_of_not_mem (k := { k with current := none }) hready] at hk₁
  cases hk₁
  exact .single hd (.expire hh)

theorem serveTimer_along (hk : k.Accounted) (completion : Option (Device × Word)) :
    Along (ByInterrupt k completion) k (serveTimer k) fun _ _ => True := by
  have hgathered : k.gatherTick.Accounted := hk.congr (Alike.gatherTick k).toSameBooks
  unfold serveTimer
  rw [Action.change_bind_apply]
  refine .of_course (gatherTick_course trivial k) ?_
  rw [Action.look_bind_apply]
  split
  · refine (tickClock_along hgathered trivial fun _ => trivial).bind hgathered fun _ k₁ _ _ => ?_
    exact .change (.world trivial ⟨rfl, rfl, rfl, rfl, rfl, rfl, rfl, rfl⟩) trivial
  · rw [Action.look_bind_apply]
    cases hh : k.gatherTick.current with
    | none => exact .pure trivial
    | some h => exact expire_along hgathered hh trivial

theorem handOver_along (hk : k.Accounted) (d : Device) (status : Word) :
    Along (ByInterrupt k (some (d, status))) k (handOver d status k) fun _ k' =>
      k.HandedOver d status k' := by
  have hadd : (k.add (.device d) 1).Accounted := hk.congr (Alike.add k (.device d) 1).toSameBooks
  unfold handOver HandedOver
  rw [Action.change_bind_apply]
  refine .of_course (add_course trivial k (.device d) 1) ?_
  refine (wakeNext_along hadd fun _ => trivial).bind hadd fun woken k₁ hk₁ hwoken => ?_
  rcases hwoken with ⟨hq, rfl, -⟩ | ⟨h, rest, hq, rfl, hm⟩
  · have hq : k.waits.waiting (.device d) = [] := hq
    rw [hq]
    refine .change (.quiet (.latch d status) ⟨rfl, hq⟩ (.latch d status) rfl) ?_
    exact (k₁.values.latched_latch d d status).trans (if_pos rfl)
  · have hq : k.waits.waiting (.device d) = h :: rest := hq
    have hmem : h ∈ k.waits.waiting (.device d) := hq ▸ List.mem_cons_self
    have hused := hk.used_of_mem (p := .waitList (.device d)) hmem
    replace hused : k₁.processes.isUsed h = true := (hm.isUsed h).trans hused
    rw [hq]
    refine .change (.quiet (.result h status) ⟨d, rfl, ?_⟩ (.result hused status) rfl) ?_
    · rw [hq, List.head?_cons]
    · unfold contextAt giveResult modify
      dsimp only
      rw [ProcessTable.get_modify, if_pos rfl, hm.descriptor, if_pos rfl]
      rfl

theorem serveCompleted_along (hk : k.Accounted) (d : Device) :
    Along (ByInterrupt k (some (d, k.machine.read d.statusRegister))) k (serveCompleted d k)
      fun _ k' => k.HandedOver d (k.machine.read d.statusRegister) k' := by
  unfold serveCompleted
  rw [Action.look_bind_apply]
  refine (handOver_along hk d _).bind hk fun _ k₁ _ hover => ?_
  exact .change (setMachine_course trivial k₁ _) hover

theorem nextUnit_along (line : Cause.Line) (k : Kernel) :
    Along allowed k (nextUnit line k) fun unit k' =>
      unit = lowestRaised (k.machine.read (bitmapOf line)) ∧ k' = k := by
  unfold nextUnit
  rw [Action.look_bind_apply]
  dsimp only
  split
  · exact ⟨.refl k, rfl, rfl⟩
  · exact ⟨.refl k, rfl, rfl⟩

/-- What serving an interrupt does if a device completes, or if none does. -/
def Serves (k : Kernel) (completion : Option (Device × Word)) (o : Outcome Kernel Unit) : Prop :=
  Along (ByInterrupt k completion) k o fun _ k' =>
    ∀ d status, completion = some (d, status) → k.HandedOver d status k'

theorem serves_completed (hk : k.Accounted) (d : Device) :
    k.Serves (some (d, k.machine.read d.statusRegister)) (serveCompleted d k) := by
  refine (serveCompleted_along hk d).mono fun _ k' hover e status heq => ?_
  obtain ⟨rfl, rfl⟩ := Prod.mk.inj (Option.some.inj heq)
  exact hover

theorem serves_none {o : Outcome Kernel Unit}
    (h : Along (ByInterrupt k none) k o fun _ _ => True) : k.Serves none o :=
  h.mono fun _ _ _ _ _ heq => nomatch heq

theorem serveDevice_serves (hk : k.Accounted) (family : DeviceFamily) :
    k.Serves (k.completion? (.device family)) (serveDevice family k) := by
  unfold serveDevice
  refine (nextUnit_along family.line k).bind hk ?_
  rintro unit k₁ - ⟨hunit, rfl⟩
  simp only [completion?, completed?, ← hunit]
  cases unit with
  | none => exact serves_none (.pure trivial)
  | some unit => exact serves_completed hk ⟨family, unit⟩

theorem serveTerminal_serves (hk : k.Accounted) :
    k.Serves (k.completion? .terminal) (serveTerminal k) := by
  unfold serveTerminal
  refine (nextUnit_along .terminal k).bind hk ?_
  rintro unit k₁ - ⟨hunit, rfl⟩
  simp only [completion?, completed?, ← hunit]
  cases unit with
  | none => exact serves_none (.pure trivial)
  | some unit =>
    dsimp only
    rw [Action.look_bind_apply]
    split
    · rename_i htransmit
      rw [Option.bind_some, if_pos htransmit]
      exact serves_completed hk ⟨.terminalTransmit, unit⟩
    · rename_i htransmit
      rw [Option.bind_some, if_neg htransmit]
      split
      · exact serves_completed hk ⟨.terminalReceive, unit⟩
      · exact serves_none (.note rfl trivial)

theorem serveInterrupt_serves (hk : k.Accounted) (cause : Word) :
    k.Serves (k.completion? (.ofCause cause)) (serveInterrupt cause k) := by
  unfold serveInterrupt
  cases InterruptSource.ofCause cause with
  | timer => exact serves_none (serveTimer_along hk none)
  | device family => exact serveDevice_serves hk family
  | terminal => exact serveTerminal_serves hk
  | stray => exact serves_none (.note rfl trivial)

/-! ## Exceptions -/

/-- The deeds of an exception of the running process. -/
def ByException (h : Slot) : Deed → Prop
  | .world | .retire _ => True
  | .save g _ => g = h
  | .latch _ _ | .result _ _ | .charge _ _ | .announce _ _ _ | .block _ _ | .wake _ _ | .expire _
  | .dispatch _ | .enroll _ _ => False

/-- A process goes on with the state in the new area of its handler, after its own has been stored
in the old one; without a handler it is gone. -/
def Raised (k : Kernel) (h : Slot) (c : ExceptionClass) (trap : ProcessorState) (k' : Kernel) :
    Prop :=
  match (k.processes.get h).handler c with
  | some handler => (k'.contextAt h).state =
      (k.machine.storeState handler.oldArea trap).loadState handler.newArea
  | none => k'.processes.isUsed h = false

theorem enterHandler_along (hk : k.Accounted) (hh : k.current = some h) (handler : Handler)
    (trap : ProcessorState) :
    Along (ByException h) k (enterHandler h handler trap k) fun _ k' =>
      (k'.contextAt h).state =
        (k.machine.storeState handler.oldArea trap).loadState handler.newArea := by
  generalize hstored : k.machine.storeState handler.oldArea trap = stored
  unfold enterHandler
  refine Along.bind hk (show Along _ k _ fun _ k' => k' = { k with machine := stored } from
    .attempt fun k' hk' => ?_) ?_
  · obtain ⟨machine, hwrite, heq⟩ : ∃ machine,
        k.machine.writeState handler.oldArea trap = .ok machine ∧ k' = { k with machine } := by
      cases hwrite : k.machine.writeState handler.oldArea trap <;> rw [hwrite] at hk' <;> cases hk'
      exact ⟨_, rfl, rfl⟩
    rw [heq, Machine.writeState_eq_ok hwrite, hstored]
    exact ⟨setMachine_course trivial k stored, rfl⟩
  rintro _ _ hk₁ rfl
  rw [Action.look_bind_apply]
  refine Along.bind hk₁ (show Along _ _ _ fun state k' =>
      state = stored.loadState handler.newArea ∧ k' = { k with machine := stored } from
    .check fun state hstate => ⟨Machine.readState_eq_ok hstate, rfl⟩) ?_
  rintro _ _ - ⟨rfl, rfl⟩
  refine .change (.quiet (.save h _) rfl (.save (k := { k with machine := stored }) hh _)
    rfl) ?_
  simp only [contextAt, modify, ProcessTable.get_modify, if_true]
  rfl

/-- A process that is terminated by its own pid does not survive. -/
theorem TerminateResult.dead_of_own {found : Bool} (ht : k.TerminateResult (k.pidAt h) found k')
    (hk : k.Accounted) (hh : k.processes.isUsed h = true) : k'.processes.isUsed h = false := by
  have hlookup := hk.indexed.lookup_eq_some_iff.2 ⟨hh, rfl⟩
  rcases ht with ⟨hnone, -⟩ | ⟨victim, hvictim, -, hd⟩
  · cases hlookup.symm.trans hnone
  · obtain rfl := Option.some.inj (hlookup.symm.trans hvictim)
    rw [← Bool.not_eq_true, hd.used_iff]
    exact fun hand => hand.2 (k.processes.self_mem_family h)

theorem raiseException_along (hk : k.Accounted) (hh : k.current = some h) (c : ExceptionClass)
    (trap : ProcessorState) :
    Along (ByException h) k (raiseException h c trap k) fun _ k' => k.Raised h c trap k' := by
  unfold raiseException Raised
  rw [Action.look_bind_apply]
  cases (k.processes.get h).handler c with
  | some handler =>
    exact .note_bind rfl (enterHandler_along hk hh handler trap)
  | none =>
    refine .note_bind rfl ?_
    refine (terminate_along hk _ fun _ => trivial).discard.mono ?_
    rintro _ k' ⟨found, ht⟩
    exact ht.dead_of_own hk (hk.used_of_current hh)

/-! ## Start-up -/

/-- The deeds of the start-up. -/
def ByBoot : Deed → Prop
  | .world => True
  | .enroll _ parent => parent = none
  | .latch _ _ | .save _ _ | .result _ _ | .charge _ _ | .announce _ _ _ | .block _ _ | .wake _ _
  | .expire _ | .dispatch _ | .retire _ => False

theorem report_along (line : BootLine) :
    Along allowed k (report line k) fun _ k' => k' = k := .note rfl rfl

theorem forM_report_along (lines : List BootLine) (hk : k.Accounted) :
    Along allowed k (lines.forM report k) fun _ k' => k' = k := by
  induction lines with
  | nil => exact .pure rfl
  | cons line lines ih =>
    refine (report_along line).bind hk ?_
    rintro _ _ - rfl
    exact ih

theorem createRoot_along (hk : k.Sound) (ramTop : Word) :
    Along ByBoot k (createRoot ramTop k) fun _ k' => k'.lastPid = k.lastPid + 1 := by
  unfold createRoot
  rw [Action.look_bind_apply]
  refine (create_along hk _ none nofun fun _ => rfl).bind hk.toAccounted ?_
  intro result k₁ hk₁ hresult
  rcases hresult with ⟨rfl, rfl, -⟩ | ⟨h, rfl, he⟩
  · exact (report_along _).bind hk₁ fun _ _ _ _ => .fail _
  · refine (report_along _).bind hk₁ ?_
    rintro _ _ - rfl
    refine (report_along _).mono ?_
    rintro _ _ rfl
    exact he.lastPid

/-- A start-up that is not stopped creates one process. -/
theorem boot_along (hk : k.Sound) :
    Along ByBoot k (boot k) fun _ k' => k'.lastPid = k.lastPid + 1 := by
  unfold boot
  refine (forM_report_along _ hk.toAccounted).bind hk.toAccounted ?_
  rintro _ k - rfl
  rw [Action.look_bind_apply]
  refine .if_note rfl ?_
  beta_reduce
  rw [Action.look_bind_apply]
  cases ramTop? (k.machine.read Bus.ramBase) (k.machine.read Bus.ramSize) with
  | none => exact (report_along _).bind hk.toAccounted fun _ _ _ _ => .fail _
  | some ramTop =>
    have hinstall : k.SameProcesses (k.installHandlers ramTop) := k.sameProcesses_setMachine _
    have hk₁ := hk.congr hinstall.alike
    dsimp only
    rw [Action.change_bind_apply, ← hinstall.lastPid]
    refine .of_course (.world trivial hinstall) ?_
    generalize k.installHandlers ramTop = k₁ at hk₁
    refine (report_along _).bind hk₁.toAccounted ?_
    rintro _ _ - rfl
    refine (report_along _).bind hk₁.toAccounted ?_
    rintro _ k₁ - rfl
    refine (createRoot_along hk₁ ramTop).bind hk₁.toAccounted fun _ k₂ _ hlater => ?_
    rw [Action.change_bind_apply]
    have hclock : k₂.SameProcesses { k₂ with tickUntil := k₂.machine.now } :=
      ⟨rfl, rfl, rfl, rfl, rfl, rfl, rfl, rfl⟩
    refine .of_course (.world trivial hclock) ((report_along _).mono ?_)
    rintro _ _ rfl
    exact hlater

end Kernel

end Nucleus
