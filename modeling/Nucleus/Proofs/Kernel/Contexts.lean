import Nucleus.Proofs.Kernel.Handling

/-!
# Contexts

A call keeps the contexts of the processes that did not run before it, but for the result of one
that a completed device wakes and for the quantum of the one that is dispatched. The process that
ran goes on with the state that the processor saved, as its trap demands (`Kernel.GoesOn`). And
whoever is resumed is resumed with its own saved state (`keepsContexts_of_reachable`).
-/

namespace Nucleus.Kernel

open Outcome

variable {k k' k₁ : Kernel} {h g : Slot} {pid : Pid} {allowed : Deed → Prop} {ms : List Move}
  {decision : Decision} {o : Outcome Kernel Decision} {ok : Kernel → Prop}
  {completion : Option (Device × Word)} {creates : Bool} {call : Call} {vector : TrapVector}

/-! ## Decisions -/

/-- The deeds by which it is decided what runs next. -/
def ByDecision (k : Kernel) : Deed → Prop
  | .world => True
  | .charge h _ => k.current = some h
  | .dispatch _ => k.current = none
  | .latch _ _ | .save _ _ | .result _ _ | .announce _ _ _ | .block _ _ | .wake _ _ | .expire _
  | .enroll _ _ | .retire _ => False

theorem oneWay_byDecision (k : Kernel) : OneWay k.ByDecision := .inl fun _ hd => hd

/-- The decision leaves the saved states as they are. -/
theorem state_act_of_decision {deed : Deed} (hd : k.ByDecision deed) (c : Context) :
    (deed.act g c).state = c.state := by
  cases deed with
  | world => rfl
  | charge | dispatch =>
    simp only [Deed.act]
    split <;> rfl
  | _ => exact hd.elim

namespace Decided

theorem course (hd : k.Decided decision ms k') : Course k.ByDecision k ms k' := by
  cases hd with
  | resumed hh hc hh' =>
    refine hc.mono fun deed hd => ?_
    cases deed with
    | world => trivial
    | charge => exact hd ▸ hh
    | _ => exact hd.elim
  | @dispatched h k₁ _ _ hd hk hms =>
    have hcurrent : k.current = none := by
      cases hd with
      | dispatch hcurrent => exact hcurrent
    rw [hms]
    have hallowed : k.ByDecision (.dispatch h) := hcurrent
    exact (Course.single hallowed hd).append (.world trivial hk)
  | waited hcurrent hk hd => exact .world trivial hk

theorem isUsed (hd : k.Decided decision ms k') (g : Slot) :
    k'.processes.isUsed g = k.processes.isUsed g := by
  rw [Bool.eq_iff_iff]
  exact ⟨hd.course.used_before fun _ _ hd => hd, hd.course.used_after fun _ hd => hd⟩

theorem state (hd : k.Decided decision ms k') (hg : k.processes.isUsed g = true) :
    (k'.contextAt g).state = (k.contextAt g).state :=
  hd.course.context (P := fun c => c.state = (k.contextAt g).state) (oneWay_byDecision k) hg
    ((hd.isUsed g).trans hg) (fun _ c hd hc => (state_act_of_decision hd c).trans hc) rfl

/-- Of a process that does not run only the quantum changes, and only if it is dispatched. -/
theorem contextAt (hd : k.Decided decision ms k') (hg : k.processes.isUsed g = true)
    (hcurrent : k.current ≠ some g) :
    k'.contextAt g = { k.contextAt g with
      quantumTime := if k'.current = some g then 0 else (k.contextAt g).quantumTime } := by
  have hg' : k'.processes.isUsed g = true := (hd.isUsed g).trans hg
  cases hd with
  | @resumed h _ hh hc hh' =>
    have hne : h ≠ g := fun heq => hcurrent (heq ▸ hh)
    rw [hh', if_neg fun heq => hne (Option.some.inj heq)]
    refine hc.context (P := fun c => c = k.contextAt g) (.inl fun _ hd => hd) hg hg' ?_ rfl
    rintro deed _ hd rfl
    cases deed with
    | world => rfl
    | charge g' micros => exact if_neg (hd ▸ hne)
    | _ => exact hd.elim
  | @dispatched h k₁ _ _ hd hk hms =>
    have hg₁ := hd.used_after nofun hg
    have hcurrent' : k'.current = some h := by
      rw [hk.current]
      cases hd with
      | dispatch => rfl
    have hsame : k'.contextAt g = k₁.contextAt g := by
      simp only [Kernel.contextAt, hk.room]
    rw [hsame, hd.context hg hg₁, hcurrent']
    simp only [Deed.act, Option.some.injEq]
    split <;> rfl
  | waited hnone hk hd =>
    rw [hk.current, if_neg hcurrent]
    simp only [Kernel.contextAt, hk.room]

/-- Whoever is resumed runs, with its own saved state. -/
theorem resume {state : ProcessorState} (hd : k.Decided (.resume pid state) ms k') :
    ∃ h, k'.current = some h ∧ k'.pidAt h = pid ∧ (k'.contextAt h).state = state := by
  generalize hdecision : Decision.resume pid state = decision at hd
  cases hd with
  | @resumed h _ hh hc hh' =>
    cases hdecision
    exact ⟨h, hh', rfl, rfl⟩
  | @dispatched h k₁ _ _ hd hk hms =>
    cases hdecision
    refine ⟨h, ?_, rfl, rfl⟩
    rw [hk.current]
    cases hd with
    | dispatch => rfl
  | waited hnone hk hd =>
    subst hdecision
    rcases hd with heq | heq <;> cases heq

/-- The pids stay. -/
theorem pidAt (hd : k.Decided decision ms k') (hg : k.processes.isUsed g = true) :
    k'.pidAt g = k.pidAt g :=
  hd.course.pidAt (oneWay_byDecision k) hg ((hd.isUsed g).trans hg)

end Decided

/-- A process that still runs is resumed. -/
theorem schedule_of_current (hk : k.Accounted) (hh : k.current = some h) :
    ∃ k' log, schedule k = .ok (.resume (k.pidAt h) (k.contextAt h).state) k' log ∧
      k'.current = some h ∧ (k'.contextAt h).state = (k.contextAt h).state := by
  have hused := hk.used_of_current hh
  have hrun : schedule k = k.resumeCurrent h := schedule_eq_resumeCurrent hh
  obtain ⟨decision, k', log, heq⟩ : ∃ decision k' log, schedule k = .ok decision k' log :=
    ⟨_, _, _, hrun⟩
  have hd : k.Decided decision (moves log) k' := by
    have htells := resumeCurrent_decided hh
    rwa [← hrun, heq] at htells
  have hpid := hd.pidAt hused
  have hstate := hd.state hused
  refine ⟨k', log, ?_⟩
  rw [heq]
  generalize moves log = ms at hd
  cases hd with
  | @resumed g _ hg hc hg' =>
    obtain rfl := Option.some.inj (hh.symm.trans hg)
    rw [hpid, hstate]
    exact ⟨rfl, hg', rfl⟩
  | dispatched hd hk hms =>
    cases hd with
    | dispatch hcurrent => cases hcurrent.symm.trans hh
  | waited hcurrent hk hd => cases hcurrent.symm.trans hh

/-- A process that gets a result from a service is resumed with it. -/
theorem dispatch_resumes {service : Service} {value : Word} {log : List Notice} (hk : k.Sound)
    (hh : k.current = some h) (hservice : k.service? = some service)
    (hserve : serve h service (k.requested h) = .ok () (k₁.giveResult h value) log)
    (hsame : (k.requested h).Alike k₁) :
    ∃ state k' log', dispatch .sysBreak k = .ok (.resume (k.pidAt h) state) k' log' ∧
      state.v0 = value := by
  obtain ⟨g, hg, hrun⟩ := dispatch_of_service hservice
  obtain rfl : h = g := Option.some.inj (hh.symm.trans hg)
  have hgive := ((saved_requested hh).alike.trans hsame).trans (.giveResult k₁ h value)
  have hcurrent : (k₁.giveResult h value).current = some h := hgive.current.trans hh
  obtain ⟨k', log', hschedule, -⟩ := schedule_of_current (hk.congr hgive).toAccounted hcurrent
  rw [hgive.pidAt] at hschedule
  have hafter : dispatch .sysBreak k = (schedule (k₁.giveResult h value)).after log := by
    rw [hrun, Action.bind_apply, hserve]
  rw [hafter, hschedule]
  refine ⟨((k₁.giveResult h value).contextAt h).state, k', log ++ log', rfl, ?_⟩
  simp [contextAt, giveResult, modify, Descriptor.context, Descriptor.withResult,
    ProcessorState.v0, ProcessorState.withResult]

/-! ## Calls -/

/-- The permitted deeds and those of deciding what runs next. -/
def OrDecision (allowed : Deed → Prop) (deed : Deed) : Prop :=
  allowed deed ∨ ∃ k : Kernel, k.ByDecision deed

theorem OneWay.orDecision (hone : OneWay allowed) : OneWay (OrDecision allowed) := by
  rcases hone with hno | hno
  · exact .inl fun h hd => hd.elim (hno h) fun ⟨_, hd⟩ => hd
  · exact .inr fun h parent hd => hd.elim (hno h parent) fun ⟨_, hd⟩ => hd

namespace Ended

/-- The whole call is a course. -/
theorem course (ho : Ended allowed k o ok) (hs : o.state? = some k') :
    Course (OrDecision allowed) k (moves o.log) k' := by
  obtain ⟨k₁, ms, ms', hc, -, hms, hend⟩ := ho.of_state? hs
  have hc : Course (OrDecision allowed) k ms k₁ := hc.mono fun _ => .inl
  rw [hms]
  rcases hend with ⟨rfl, rfl⟩ | ⟨decision, hd⟩
  · exact (List.append_nil ms).symm ▸ hc
  · exact hc.append (hd.course.mono fun _ hd => .inr ⟨k₁, hd⟩)

/-- A process that survives a call stays in its slot. -/
theorem slot_eq (ho : Ended allowed k o ok) (hone : OneWay allowed) (hk : k.Accounted)
    (hs : o.state? = some k') (hg : k.pids.lookup pid = some g)
    (hh : k'.pids.lookup pid = some h) : h = g :=
  (ho.course hs).slot_eq hone.orDecision hk hg hh

/-- What the deeds of a call make of the saved state of a process that survives it. -/
theorem state {P : ProcessorState → Prop} (ho : Ended allowed k o ok) (hone : OneWay allowed)
    (hs : o.state? = some k') (hg : k.processes.isUsed g = true)
    (hg' : k'.processes.isUsed g = true)
    (hact : ∀ deed c, allowed deed → P c.state → P (deed.act g c).state)
    (hP : P (k.contextAt g).state) : P (k'.contextAt g).state := by
  refine (ho.course hs).context (P := fun c => P c.state) hone.orDecision hg hg'
    (fun deed c hd hc => ?_) hP
  rcases hd with hd | ⟨k, hd⟩
  · exact hact deed c hd hc
  · rwa [state_act_of_decision hd]

end Ended

theorem oneWay_byCall (k : Kernel) (completion : Option (Device × Word)) (creates : Bool) :
    OneWay (k.ByCall completion creates) := by
  cases creates with
  | true => exact .inl fun _ hd => Bool.noConfusion hd
  | false => exact .inr fun _ _ hd => Bool.noConfusion hd.1

/-- The status that a process gets if a device completes for which it has waited longest. -/
def deliveryTo (k : Kernel) (completion : Option (Device × Word)) (g : Slot) : Option Word :=
  completion.bind fun (d, status) =>
    if (k.waits.waiting (.device d)).head? = some g then some status else none

/-- The context of a process that does not run, after a call that is about to decide what does. -/
theorem Course.contextAt_bystander
    (hc : Course (k.ByCall completion creates) k ms k₁) (hd : k.Delivers completion k₁)
    (hg : k.processes.isUsed g = true) (hg₁ : k₁.processes.isUsed g = true)
    (hcurrent : k.current ≠ some g) :
    k₁.contextAt g = { k.contextAt g with
      state := (k.deliveryTo completion g).elim (k.contextAt g).state
        (k.contextAt g).state.withResult } := by
  cases hdelivery : k.deliveryTo completion g with
  | some status =>
    obtain ⟨⟨d, status'⟩, hcompletion, hhead⟩ := Option.bind_eq_some_iff.1 hdelivery
    dsimp only at hhead
    split at hhead
    · rename_i hhead'
      obtain rfl := Option.some.inj hhead
      obtain ⟨rest, hq⟩ := List.head?_eq_some_iff.1 hhead'
      have hover := hd d _ hcompletion
      unfold HandedOver at hover
      rw [hq] at hover
      exact hover
    · cases hhead
  | none =>
    refine hc.context (P := fun c => c = k.contextAt g) (oneWay_byCall k _ _) hg hg₁ ?_ rfl
    rintro deed _ hd rfl
    have hne : ∀ {h}, k.current = some h → h ≠ g := fun hh heq => hcurrent (heq ▸ hh)
    cases deed with
    | save h state => exact if_neg (hne hd)
    | charge h micros => exact if_neg (hne hd)
    | announce h handlers announced => exact if_neg (hne hd)
    | result h value =>
      rcases hd with hh | ⟨d, hcompletion, hhead⟩
      · exact if_neg (hne hh)
      · refine if_neg ?_
        rintro rfl
        have hsome : k.deliveryTo completion h = some value := by
          rw [deliveryTo, hcompletion]
          exact if_pos hhead
        cases hdelivery.symm.trans hsome
    | dispatch h => exact hd.elim
    | _ => rfl

/-- A call keeps the context of a process that did not run before it. -/
theorem Sound.contextAt_bystander (hk : k.Sound) (hs : (call.run k).state? = some k')
    (hg : k.processes.isUsed g = true) (hg' : k'.processes.isUsed g = true)
    (hcurrent : k.current ≠ some g) :
    k'.contextAt g = { k.contextAt g with
      state := (k.deliveryTo (call.completion? k) g).elim (k.contextAt g).state
        (k.contextAt g).state.withResult
      quantumTime := if k'.current = some g then 0 else (k.contextAt g).quantumTime } := by
  obtain ⟨creates, hended⟩ := hk.call_ended call
  obtain ⟨k₁, ms, ms', hc, hdelivers, -, hend⟩ := hended.of_state? hs
  have hcurrent₁ : k₁.current ≠ some g := by
    rcases hc.current fun _ hd => hd with heq | hnone
    · rwa [heq]
    · rw [hnone]
      exact Option.some_ne_none g ∘ Eq.symm
  rcases hend with ⟨rfl, -⟩ | ⟨decision, hd⟩
  · rw [hc.contextAt_bystander hdelivers hg hg' hcurrent, if_neg hcurrent₁]
  · have hg₁ : k₁.processes.isUsed g = true := (hd.isUsed g).symm.trans hg'
    rw [hd.contextAt hg₁ hcurrent₁, hc.contextAt_bystander hdelivers hg hg₁ hcurrent]

/-! ## The process that trapped -/

/-- The state with which the process that a trap interrupted goes on, if it does. -/
inductive GoesOn (k : Kernel) (h : Slot) : TrapVector → ProcessorState → Prop
  /-- After an interrupt it goes on where it was. -/
  | interrupted :
    GoesOn k h .interrupt (k.machine.loadState TrapVector.interrupt.oldArea)
  /-- After a service it goes on behind its request, perhaps with a result. -/
  | served {service : Service} (hservice : k.service? = some service) (value : Word) :
    GoesOn k h .sysBreak
      ((behind (k.machine.loadState TrapVector.sysBreak.oldArea)).withResult value)
  /-- After an exception it goes on in its handler, with the state in the new area of that. -/
  | passedUp {vector : TrapVector} {c : ExceptionClass} {passed : ProcessorState}
    {machine : Machine} {handler : Handler} (hx : k.exception? vector = some (c, passed, machine))
    (hhandler : (k.processes.get h).handler c = some handler) :
    GoesOn k h vector ((machine.storeState handler.oldArea passed).loadState handler.newArea)

theorem withResult_v0 (s : ProcessorState) : s.withResult s.v0 = s := by
  apply ProcessorState.ext_reg <;> try rfl
  intro r
  simp only [ProcessorState.withResult, ProcessorState.reg_setReg]
  split
  · rename_i heq
    rw [← heq]
    rfl
  · rfl

theorem withResult_withResult (s : ProcessorState) (value value' : Word) :
    (s.withResult value).withResult value' = s.withResult value' := by
  apply ProcessorState.ext_reg <;> try rfl
  intro r
  simp only [ProcessorState.withResult, ProcessorState.reg_setReg]
  split <;> rfl

/-- An interrupt leaves the saved state of the running process as it is. -/
theorem serveInterrupt_state (hk : k.Sound) (hh : k.current = some h) (cause : Word)
    (hs : ((serveInterrupt cause >>= fun _ => schedule) k).state? = some k')
    (hh' : k'.processes.isUsed h = true) : (k'.contextAt h).state = (k.contextAt h).state := by
  have hended := serveInterrupt_ended hk cause
  refine hended.state (P := fun s => s = (k.contextAt h).state) (.inl fun _ hd => hd) hs
    (hk.used_of_current hh) hh' (fun deed c hd hc => ?_) rfl
  cases deed with
  | result g value =>
    -- The running process waits for no device.
    obtain ⟨d, -, hhead⟩ := hd
    have hmem : g ∈ k.standing (.waitList (.device d)) := List.mem_of_head? hhead
    have hne : g ≠ h := by
      rintro rfl
      exact Place.noConfusion ((hk.at_processor hh).mem_iff.1 hmem)
    simp only [Deed.act, if_neg hne, hc]
  | world | latch | wake | expire => exact hc
  | _ => exact hd.elim

/-- A service gives its caller at most a result. -/
theorem serve_state (hk : k.Sound) (hh : k.current = some h) (service : Service)
    (hs : ((serve h service >>= fun _ => schedule) k).state? = some k')
    (hh' : k'.processes.isUsed h = true) :
    ∃ value, (k'.contextAt h).state = (k.contextAt h).state.withResult value := by
  have hended := serve_ended hk hh service
  have hone : OneWay (ByService h (creates service)) := by
    cases creates service with
    | true => exact .inl fun _ hd => Bool.noConfusion hd
    | false => exact .inr fun _ _ hd => Bool.noConfusion hd.1
  refine hended.state (P := fun s => ∃ value, s = (k.contextAt h).state.withResult value) hone hs
    (hk.used_of_current hh) hh' (fun deed c hd hc => ?_) ⟨_, (withResult_v0 _).symm⟩
  obtain ⟨value, hstate⟩ := hc
  cases deed with
  | result g value' =>
    simp only [Deed.act, hstate]
    split
    · exact ⟨value', withResult_withResult _ _ _⟩
    · exact ⟨value, hstate⟩
  | charge | announce =>
    simp only [Deed.act]
    split <;> exact ⟨value, hstate⟩
  | world | block | wake | enroll | retire => exact ⟨value, hstate⟩
  | _ => exact hd.elim

/-- After an exception a process that is still alive goes on in its handler. -/
theorem raiseException_state (hk : k.Accounted) (hh : k.current = some h) (c : ExceptionClass)
    (trap : ProcessorState)
    (hs : ((raiseException h c trap >>= fun _ => schedule) k).state? = some k')
    (hh' : k'.processes.isUsed h = true) :
    ∃ handler, (k.processes.get h).handler c = some handler ∧ (k'.contextAt h).state =
      (k.machine.storeState handler.oldArea trap).loadState handler.newArea := by
  obtain ⟨k₁, ms, ms', hc, hraised, -, hend⟩ := (raiseException_ended hk hh c trap).of_state? hs
  have hsame : k₁.processes.isUsed h = true ∧ (k'.contextAt h).state = (k₁.contextAt h).state := by
    rcases hend with ⟨rfl, -⟩ | ⟨decision, hd⟩
    · exact ⟨hh', rfl⟩
    · have hh₁ := (hd.isUsed h).symm.trans hh'
      exact ⟨hh₁, hd.state hh₁⟩
  unfold Raised at hraised
  cases hhandler : (k.processes.get h).handler c with
  | some handler =>
    rw [hhandler] at hraised
    exact ⟨handler, rfl, hsame.2.trans hraised⟩
  | none =>
    rw [hhandler] at hraised
    cases hsame.1.symm.trans hraised

/-- Handling a trap lets the process that it interrupted go on as the trap demands, if it is still
alive. -/
theorem dispatch_goesOn (hk : k.Sound) (hh : k.current = some h)
    (hs : (dispatch vector k).state? = some k') (hh' : k'.processes.isUsed h = true)
    (hexpected : ∀ code, (dispatch vector k).result? ≠ some (.error (.unexpectedException code))) :
    k.GoesOn h vector (k'.contextAt h).state := by
  have hhandled := k.dispatch_handled vector
  generalize dispatch vector k = o at hhandled hs hexpected
  have hsame : ∀ {g}, k.current = some g → g = h := fun hg => Option.some.inj (hg.symm.trans hh)
  cases hhandled with
  | nobody hv hnone => cases hnone.symm.trans hh
  | idle hnone cause hcause => cases hnone.symm.trans hh
  | interrupt hg cause hcause hsaved hm =>
    obtain rfl := hsame hg
    have hstate := serveInterrupt_state (hk.congr hsaved.alike) (hsaved.alike.current.trans hg)
      cause hs hh'
    rw [hstate, hsaved.state]
    exact .interrupted
  | service hg hservice =>
    obtain rfl := hsame hg
    have hsaved := saved_requested hg
    obtain ⟨value, hstate⟩ := serve_state (hk.congr hsaved.alike)
      (hsaved.alike.current.trans hg) _ hs hh'
    rw [hstate, hsaved.state]
    exact .served hservice value
  | @exception g vector c passed state machine k₁ hg hx hsaved hm =>
    obtain rfl := hsame hg
    obtain ⟨handler, hhandler, hstate⟩ := raiseException_state
      (hk.congr hsaved.alike).toAccounted (hsaved.alike.current.trans hg) c passed hs hh'
    rw [(hsaved.alike.handlers g).handler] at hhandler
    rw [hstate, hm]
    exact .passedUp hx hhandler
  | unexpected hg hservice => exact absurd rfl (hexpected _)

/-! ## The law -/

/-- A process that survives a call keeps its pid. -/
theorem Sound.pidAt_eq (hk : k.Sound) (hs : (call.run k).state? = some k')
    (hg : k.processes.isUsed g = true) (hg' : k'.processes.isUsed g = true) :
    k'.pidAt g = k.pidAt g := by
  obtain ⟨creates, hended⟩ := hk.call_ended call
  exact (hended.course hs).pidAt (oneWay_byCall k _ creates).orDecision hg hg'

/-- Whoever a call resumes runs, with its own saved state. -/
theorem Sound.current_of_resume {state : ProcessorState} {log : List Notice} (hk : k.Sound)
    (hrun : call.run k = .ok (.resume pid state) k' log) :
    ∃ g, k'.current = some g ∧ k'.pids.lookup pid = some g ∧ (k'.contextAt g).state = state := by
  have hk' : k'.Sound := hk.step (.call call (by rw [hrun]; rfl))
  obtain ⟨creates, hended⟩ := hk.call_ended call
  rw [hrun] at hended
  obtain ⟨k₁, ms, ms', -, -, hd, -⟩ := hended
  obtain ⟨g, hcurrent, hpid, hstate⟩ := hd.resume
  have hlookup := hk'.indexed.lookup_eq_some_iff.2 ⟨hk'.used_of_current hcurrent, hpid⟩
  exact ⟨g, hcurrent, hlookup, hstate⟩

theorem parent_eq_map (hg : k.pids.lookup pid = some g) :
    k.parent pid = (k.contextAt g).parent.map k.pidAt := by
  unfold Kernel.parent descriptor?
  rw [hg]
  exact Option.map_eq_bind.symm

/-- A live process keeps its parent, whose pid stays the same. -/
theorem Sound.parent_eq (hk : k.Sound) (hs : (call.run k).state? = some k')
    (hg : k.pids.lookup pid = some g) (hg' : k'.pids.lookup pid = some g)
    (hlink : (k'.contextAt g).parent = (k.contextAt g).parent) : k'.parent pid = k.parent pid := by
  have hk' := hk.step (.call call hs)
  obtain ⟨hused, -⟩ := hk.indexed.lookup_eq_some_iff.1 hg
  obtain ⟨hused', -⟩ := hk'.indexed.lookup_eq_some_iff.1 hg'
  rw [parent_eq_map hg, parent_eq_map hg', hlink]
  cases hp : (k.contextAt g).parent with
  | none => rfl
  | some p =>
    obtain ⟨hpused, -⟩ := hk.linked.parent hused hp
    obtain ⟨hpused', -⟩ := hk'.linked.parent hused' (hlink.trans hp)
    exact congrArg some (hk.pidAt_eq hs hpused hpused')

/-- What a call keeps of the processes that are alive before and after it. -/
structure KeepsContexts (call : Call) (k k' : Kernel) : Prop where
  /-- A process that did not run before the call keeps its slot and its context. It gets the status
  of a device that completes if it has waited longest for it, and a new quantum if it runs now. -/
  bystander : ∀ pid g g', k.pids.lookup pid = some g → k'.pids.lookup pid = some g' →
    k.current ≠ some g → g' = g ∧ k'.parent pid = k.parent pid ∧
      k'.contextAt g = { k.contextAt g with
        state := (k.deliveryTo (call.completion? k) g).elim (k.contextAt g).state
          (k.contextAt g).state.withResult
        quantumTime := if k'.current = some g then 0 else (k.contextAt g).quantumTime }
  /-- Whoever is resumed runs, with its own saved state. -/
  resumed : ∀ pid state log, call.run k = .ok (.resume pid state) k' log →
    ∃ g, k'.current = some g ∧ k'.pids.lookup pid = some g ∧ (k'.contextAt g).state = state
  /-- The process that a trap interrupted goes on as the trap demands, unless it is of no known
  kind. -/
  goesOn : ∀ vector k₁ h g, call.trap? k = some (vector, k₁) → k.current = some h →
    k'.pids.lookup (k.pidAt h) = some g →
    (∀ code, (call.run k).result? ≠ some (.error (.unexpectedException code))) →
    g = h ∧ k₁.GoesOn h vector (k'.contextAt h).state

theorem Sound.slot_eq (hk : k.Sound) (hs : (call.run k).state? = some k')
    (hg : k.pids.lookup pid = some g) (hh : k'.pids.lookup pid = some h) : h = g := by
  obtain ⟨creates, hended⟩ := hk.call_ended call
  exact hended.slot_eq (oneWay_byCall k _ creates) hk.toAccounted hs hg hh

/-- Every call of every run keeps the contexts of the processes. -/
theorem keepsContexts_of_reachable (hk : k.Reachable) (hs : (call.run k).state? = some k') :
    KeepsContexts call k k' := by
  have hk := hk.sound
  have hk' := hk.step (.call call hs)
  refine ⟨?_, ?_, ?_⟩
  · intro pid g g' hg hg' hcurrent
    obtain rfl := hk.slot_eq hs hg hg'
    obtain ⟨hused, -⟩ := hk.indexed.lookup_eq_some_iff.1 hg
    obtain ⟨hused', -⟩ := hk'.indexed.lookup_eq_some_iff.1 hg'
    have hcontext := hk.contextAt_bystander hs hused hused' hcurrent
    have hlink : (k'.contextAt g').parent = (k.contextAt g').parent := by rw [hcontext]
    exact ⟨rfl, hk.parent_eq hs hg hg' hlink, hcontext⟩
  · exact fun _ _ _ => hk.current_of_resume
  · intro vector k₁ h g htrap hh hg hexpected
    have hlookup := hk.indexed.lookup_eq_some_iff.2 ⟨hk.used_of_current hh, rfl⟩
    obtain rfl := hk.slot_eq hs hlookup hg
    obtain ⟨⟨machine, rfl⟩, hrun⟩ := Call.run_eq_of_trap? htrap
    rw [hrun] at hs hexpected
    have hused' := (hk'.indexed.lookup_eq_some_iff.1 hg).1
    exact ⟨rfl, dispatch_goesOn (hk.congr (.setMachine k machine)) hh hs hused' hexpected⟩

/-- The root process waits for a disk; when that completes while the child runs, the status goes to
the root process. -/
theorem keepsContexts_of_reachable_completion : ∃ k k', k.Reachable ∧
    ((Call.deliver (.device 3 0 0x55)).run k).state? = some k' ∧
    KeepsContexts (.deliver (.device 3 0 0x55)) k k' ∧ k.current = some 1 ∧
    k.deliveryTo ((Call.deliver (.device 3 0 0x55)).completion? k) 0 = some 0x55 := by
  obtain ⟨k, hk, htest⟩ := exists_reachable
    (p := fun k => k.current = some 1 ∧
      k.deliveryTo ((Call.deliver (.device 3 0 0x55)).completion? k) 0 = some 0x55 ∧
      ((Call.deliver (.device 3 0 0x55)).run k).state?.isSome)
    [.schedule, .deliver (.request 1 0x20001000 0 0 false), .deliver (.request 8 3 0 0 false)]
    (by decide +kernel)
  obtain ⟨hcurrent, hdelivery, hsome⟩ := of_decide_eq_true htest
  obtain ⟨k', hs⟩ := Option.isSome_iff_exists.1 hsome
  exact ⟨k, k', hk, hs, keepsContexts_of_reachable hk hs, hcurrent, hdelivery⟩

end Nucleus.Kernel
