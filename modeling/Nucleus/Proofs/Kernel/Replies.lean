import Nucleus.Proofs.Kernel.Contexts
import Nucleus.Proofs.Kernel.Transition

/-!
# Replies

A process gets the reply of a device with the state in which it is resumed. One that is ready keeps
its state until a call resumes it (`Sound.state_of_ready`, `Sound.resumedWith_of_current`). One that
asks for a device of which a completion is left over is resumed at once with the status that was
latched (`Sound.resumes_latched`), and a completion that finds nobody waiting latches its own
(`Sound.latched_of_completion`).
-/

namespace Nucleus.Kernel

open Outcome

variable {k k' k₁ : Kernel} {h g : Slot} {pid : Pid} {d : Device} {call : Call}
  {status value : Word} {decision : Decision} {ms : List Move}

/-! ## Resuming -/

/-- The result with which a process is resumed. -/
def resumedWith (o : Outcome Kernel Decision) (pid : Pid) : Option Word :=
  match o with
  | .ok (.resume p state) _ _ => if p = pid then some state.v0 else none
  | .ok .idle _ _ | .ok .halt _ _ | .fault _ _ _ | .abort _ => none

/-- A decision that leaves a process running resumes it. -/
theorem Decided.eq_resume (hd : k.Decided decision ms k') (hg : k'.current = some g) :
    decision = .resume (k'.pidAt g) (k'.contextAt g).state := by
  cases hd with
  | resumed hh hc hh' =>
    obtain rfl := Option.some.inj (hh'.symm.trans hg)
    rfl
  | dispatched hd hk hms =>
    cases hd with
    | dispatch hcurrent hready =>
      obtain rfl := Option.some.inj (hk.current.symm.trans hg)
      rfl
  | waited hcurrent hk hd => cases (hk.current.trans hcurrent).symm.trans hg

/-- A ready process stays ready or gets the processor. -/
theorem Decided.ready (hd : k.Decided decision ms k') (hused : k.processes.isUsed g = true)
    (hg : g ∈ k.ready.items) : g ∈ k'.ready.items ∨ k'.current = some g := by
  have hused' := (hd.isUsed g).trans hused
  cases hd with
  | resumed hh hc hh' =>
    exact .inl (hc.ready (.inl fun _ hd => hd) (fun _ hd => hd) hused hg hused')
  | dispatched hd hk hms =>
    cases hd with
    | dispatch hcurrent hready =>
      rw [hk.ready, hk.current]
      rw [hready] at hg
      rcases List.mem_cons.1 hg with rfl | hrest
      · exact .inr rfl
      · exact .inl hrest
  | waited hcurrent hk hd => exact .inl (hk.ready ▸ hg)

/-- Who is resumed with a result runs, and has it in its saved state. -/
theorem Sound.current_of_resumedWith (hk : k.Sound) (hs : (call.run k).state? = some k')
    (hresumed : resumedWith (call.run k) pid = some value) :
    ∃ g, k'.current = some g ∧ k'.pids.lookup pid = some g ∧ (k'.contextAt g).state.v0 = value := by
  unfold resumedWith at hresumed
  split at hresumed
  · rename_i p state k'' log hrun
    split at hresumed
    · rename_i hpid
      obtain rfl : k'' = k' := by
        rw [hrun] at hs
        exact Option.some.inj hs
      obtain ⟨g, hcurrent, hlookup, hstate⟩ := hk.current_of_resume hrun
      exact ⟨g, hcurrent, hpid ▸ hlookup, hstate ▸ Option.some.inj hresumed⟩
    · cases hresumed
  · cases hresumed
  · cases hresumed
  · cases hresumed
  · cases hresumed

/-- A process that gets the processor is resumed by the same call. -/
theorem Sound.resumedWith_of_current (hk : k.Sound) (hs : (call.run k).state? = some k')
    (hg : k'.current = some g) (hne : k.current ≠ some g) :
    resumedWith (call.run k) (k'.pidAt g) = some (k'.contextAt g).state.v0 := by
  obtain ⟨creates, hended⟩ := hk.call_ended call
  cases hrun : call.run k with
  | ok decision s log =>
    rw [hrun] at hended hs
    obtain rfl := Option.some.inj hs
    obtain ⟨k₁, ms, ms', -, -, hd, -⟩ := hended
    rw [hd.eq_resume hg]
    exact if_pos rfl
  | fault cause s log =>
    rw [hrun] at hended hs
    obtain rfl := Option.some.inj hs
    rcases hended.1.current fun _ hd => hd with hsame | hnone
    · exact absurd (hsame.symm.trans hg) hne
    · cases hnone.symm.trans hg
  | abort cause =>
    rw [hrun] at hs
    cases hs

/-- A ready process that survives a call stays ready or is resumed. -/
theorem Sound.ready_or_resumed (hk : k.Sound) (hs : (call.run k).state? = some k')
    (hg : g ∈ k.ready.items) (hg' : k'.processes.isUsed g = true) :
    g ∈ k'.ready.items ∨ resumedWith (call.run k) (k'.pidAt g) ≠ none := by
  have hat : k.At g .ready := hk.at_of_mem hg
  have hne : k.current ≠ some g := fun hh =>
    Place.noConfusion ((hk.at_processor hh).mem_iff.1 hat.mem)
  have hready : g ∈ k'.ready.items ∨ k'.current = some g := by
    have hused := hk.used_of_mem hat.mem
    obtain ⟨creates, hended⟩ := hk.call_ended call
    obtain ⟨k₁, ms, ms', hc, -, -, hend⟩ := hended.of_state? hs
    have hone := oneWay_byCall k (call.completion? k) creates
    rcases hend with ⟨rfl, -⟩ | ⟨decision, hd⟩
    · exact .inl (hc.ready hone (fun _ hd => hd) hused hg hg')
    · have hused₁ := (hd.isUsed g).symm.trans hg'
      exact hd.ready hused₁ (hc.ready hone (fun _ hd => hd) hused hg hused₁)
  refine hready.imp_right fun hcurrent => ?_
  rw [hk.resumedWith_of_current hs hcurrent hne]
  exact Option.some_ne_none _

/-- A process that waits for no device gets no status. -/
theorem At.deliveryTo_eq_none {p : Place} (hat : k.At g p)
    (hp : ∀ d : Device, p ≠ .waitList (.device d)) (completion : Option (Device × Word)) :
    k.deliveryTo completion g = none := by
  unfold deliveryTo
  rw [Option.bind_eq_none_iff]
  rintro ⟨d, status⟩ -
  refine if_neg fun hhead => ?_
  have hmem : g ∈ k.standing (.waitList (.device d)) := List.mem_of_head? hhead
  exact hp d (hat.mem_iff.1 hmem).symm

/-- A ready process keeps its saved state. -/
theorem Sound.state_of_ready (hk : k.Sound) (hs : (call.run k).state? = some k')
    (hg : g ∈ k.ready.items) (hg' : k'.processes.isUsed g = true) :
    (k'.contextAt g).state = (k.contextAt g).state := by
  have hat : k.At g .ready := hk.at_of_mem hg
  have hcurrent : k.current ≠ some g := fun hh =>
    Place.noConfusion ((hk.at_processor hh).mem_iff.1 hat.mem)
  have hnothing := hat.deliveryTo_eq_none (fun _ => Place.noConfusion) (call.completion? k)
  rw [hk.contextAt_bystander hs (hk.used_of_mem hat.mem) hg' hcurrent, hnothing]
  rfl

/-- A live process with a pid from before a call was alive before it, in the same slot. -/
theorem Sound.lookup_before (hk : k.Sound) (hs : (call.run k).state? = some k')
    (hpid : pid ≤ k.lastPid) (hg : k'.pids.lookup pid = some g) :
    k.pids.lookup pid = some g := by
  have hk' := hk.step (.call call hs)
  obtain ⟨hused', rfl⟩ := hk'.indexed.lookup_eq_some_iff.1 hg
  obtain ⟨creates, hended⟩ := hk.call_ended call
  exact hk.indexed.lookup_eq_some_iff.2 ((hended.course hs).used_of_pid_le hused' hpid)

theorem Sound.lastPid_le (hk : k.Sound) (hs : (call.run k).state? = some k') :
    k.lastPid ≤ k'.lastPid := by
  obtain ⟨creates, hended⟩ := hk.call_ended call
  exact (hended.course hs).lastPid_le

/-! ## Completions -/

theorem interruptUse?_eq_give_iff {source : InterruptSource} :
    k.interruptUse? source = some (.device d, .give) ↔
      ∃ status, k.completion? source = some (d, status) := by
  unfold interruptUse? completion?
  split
  · rename_i htimer
    subst htimer
    refine iff_of_false (fun heq => ?_) fun ⟨_, heq⟩ => nomatch heq
    split at heq <;> cases heq
  · cases k.completed? source with
    | none => exact iff_of_false nofun fun ⟨_, heq⟩ => nomatch heq
    | some e => simp

/-- A call gives a unit to the semaphore of a device exactly if that completes. -/
theorem Call.use?_eq_give_iff :
    call.use? k = some (.device d, .give) ↔ ∃ status, call.completion? k = some (d, status) := by
  unfold use? completion?
  cases call.trap? k with
  | none => exact iff_of_false nofun fun ⟨_, heq⟩ => nomatch heq
  | some trap =>
    obtain ⟨vector, k₁⟩ := trap
    cases vector with
    | interrupt => exact interruptUse?_eq_give_iff
    | sysBreak =>
      refine iff_of_false (fun huse => ?_) fun ⟨_, heq⟩ => nomatch heq
      replace huse : k₁.service?.bind Service.use? = some (.device d, .give) := huse
      obtain ⟨service, -, huse⟩ := Option.bind_eq_some_iff.1 huse
      cases service with
      | waitDevice line unit read =>
        obtain ⟨_, -, heq⟩ := Option.map_eq_some_iff.1 huse
        cases heq
      | _ => cases huse
    | _ => exact iff_of_false nofun fun ⟨_, heq⟩ => nomatch heq

/-- What is latched for a device stays unless it completes while nobody waits for it. -/
theorem Sound.latched_kept (hk : k.Sound) (hs : (call.run k).state? = some k')
    (hwaiting : ∀ status, call.completion? k = some (d, status) →
      k.waits.waiting (.device d) ≠ []) : k'.latched d = k.latched d := by
  obtain ⟨creates, hended⟩ := hk.call_ended call
  refine (hended.course hs).latched fun status hd => ?_
  rcases hd with ⟨hcompletion, hnobody⟩ | ⟨_, hd⟩
  · exact hwaiting status hcompletion hnobody
  · exact hd

/-- What is latched stays until the device completes again. -/
theorem Sound.latched_eq (hk : k.Sound) (hs : (call.run k).state? = some k')
    (huse : call.use? k ≠ some (.device d, .give)) : k'.latched d = k.latched d :=
  hk.latched_kept hs fun status hcompletion =>
    absurd (Call.use?_eq_give_iff.2 ⟨status, hcompletion⟩) huse

/-- The status of a device that completes when nobody waits for it is latched. -/
theorem Sound.latched_of_completion (hk : k.Sound) (hs : (call.run k).state? = some k')
    (hcompletion : call.completion? k = some (d, status))
    (hnobody : k.waits.waiting (.device d) = []) : k'.latched d = status := by
  obtain ⟨creates, hended⟩ := hk.call_ended call
  obtain ⟨k₁, ms, ms', -, hdelivers, -, hend⟩ := hended.of_state? hs
  have hover := hdelivers d status hcompletion
  unfold HandedOver at hover
  rw [hnobody] at hover
  rcases hend with ⟨rfl, -⟩ | ⟨decision, hd⟩
  · exact hover
  · exact (hd.course.latched fun _ hd => hd).trans hover

/-! ## Requests -/

/-- A call that takes a unit from the semaphore of a device serves a request for that device. -/
theorem Call.exists_request (huse : call.use? k = some (.device d, .take)) :
    ∃ machine line unit read, call.run k = Kernel.dispatch .sysBreak { k with machine } ∧
      service? { k with machine } = some (.waitDevice line unit read) ∧
      (DeviceFamily.ofLine? line read).bind (Device.ofNumber? · unit) = some d := by
  obtain ⟨⟨vector, k₁⟩, htrap, huse⟩ := Option.bind_eq_some_iff.1 huse
  obtain ⟨⟨machine, rfl⟩, hrun⟩ := Call.run_eq_of_trap? htrap
  cases vector with
  | sysBreak =>
    obtain ⟨service, hservice, huse⟩ := Option.bind_eq_some_iff.1 huse
    cases service with
    | waitDevice line unit read =>
      obtain ⟨e, hdevice, heq⟩ := Option.map_eq_some_iff.1 huse
      cases heq
      exact ⟨machine, line, unit, read, hrun, hservice, hdevice⟩
    | _ => cases huse
  | interrupt =>
    have huse : interruptUse? { k with machine } _ = some (.device d, .take) := huse
    unfold interruptUse? at huse
    split at huse
    · split at huse <;> cases huse
    · obtain ⟨_, -, heq⟩ := Option.map_eq_some_iff.1 huse
      cases heq
  | _ => cases huse

theorem view_requested (k : Kernel) (h : Slot) (id : SemaphoreId) :
    (k.requested h).view id = k.view id :=
  (view_modify (fun _ => ⟨rfl, rfl, rfl, rfl, rfl⟩) _ h id).trans (view_saved k h _ id)

/-- A request for a device of which a completion is left over gives its caller what is latched. -/
theorem awaitDevice_of_pos {line unit : Word} {read : Bool} (hk : k.Accounted)
    (hh : k.current = some h)
    (hdevice : (DeviceFamily.ofLine? line read).bind (Device.ofNumber? · unit) = some d)
    (hpos : 0 < (k.value (.device d)).toInt) :
    ∃ log, awaitDevice h line unit read k =
      .ok () ((k.add (.device d) (-1)).giveResult h (k.latched d)) log := by
  obtain ⟨went, k₁, log, hrun, hk₁⟩ := (acquire_finishes hk hh (.device d)).exists
  rw [if_pos hpos] at hk₁
  obtain ⟨rfl, rfl⟩ := hk₁
  refine ⟨log ++ [], ?_⟩
  unfold awaitDevice
  rw [hdevice]
  show ((acquire (.device d) (SemaphoreId.device d).waitKind >>= _) : Action Kernel Unit) k = _
  rw [Action.bind_apply, hrun]
  rfl

/-- A process that asks for a device of which a completion is left over is resumed at once with the
latched status. -/
theorem Sound.resumes_latched (hk : k.Sound) (hh : k.current = some h)
    (huse : call.use? k = some (.device d, .take)) (hpos : 0 < (k.value (.device d)).toInt) :
    ∃ state k' log, call.run k = .ok (.resume (k.pidAt h) state) k' log ∧
      state.v0 = k.latched d := by
  obtain ⟨machine, line, unit, read, hrun, hservice, hdevice⟩ := Call.exists_request huse
  rw [hrun]
  have hk : Sound { k with machine } := hk.congr (.setMachine k machine)
  have hh : Kernel.current { k with machine } = some h := hh
  have hpos : 0 < (Kernel.value { k with machine } (.device d)).toInt := hpos
  have hlatched : k.latched d = Kernel.latched { k with machine } d := rfl
  have hpid : k.pidAt h = Kernel.pidAt { k with machine } h := rfl
  rw [hlatched, hpid]
  generalize { k with machine } = k at hk hh hpos hservice
  have hsaved := saved_requested hh
  have hvalue : (k.requested h).value (.device d) = k.value (.device d) :=
    congrArg View.value (view_requested k h (.device d))
  obtain ⟨log, hserve⟩ := awaitDevice_of_pos (hk.congr hsaved.alike).toAccounted
    (hsaved.alike.current.trans hh) hdevice (hvalue ▸ hpos)
  rw [hsaved.course.latched fun _ hd => hd] at hserve
  exact dispatch_resumes hk hh hservice hserve (.add _ _ _)

end Nucleus.Kernel
