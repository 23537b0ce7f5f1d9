import Nucleus.Proofs.Kernel.Reachable

/-!
# Halt and deadlock

What `schedule` decides is read off the places of the processes (`SchedulesExactly`), although it
looks at two counters. Once it has halted or reported a deadlock it does so for ever: nothing
that happens to the machine brings a process back (`Frozen`).
-/

namespace Nucleus.Kernel

open Outcome

variable {k k' k'' : Kernel} {h : Slot} {result : Except Fault Decision}

/-! ## What is decided -/

/-- There is a process to run. -/
def CanRun (k : Kernel) : Prop := k.current ≠ none ∨ k.ready.items ≠ []

/-- A process waits on a user semaphore. -/
def OnUser (k : Kernel) (h : Slot) : Prop := ∃ address, h ∈ k.waits.waiting (.user address)

/-- A process waits for a device or the pseudo-clock. -/
def OnSoft (k : Kernel) (h : Slot) : Prop :=
  (∃ d, h ∈ k.waits.waiting (.device d)) ∨ h ∈ k.waits.waiting .clock

theorem schedule_of_canRun (hrun : k.CanRun) :
    ∃ pid state, (schedule k).result? = some (.ok (.resume pid state)) := by
  have hchoice := k.choice_schedule
  generalize Kernel.schedule k = o at hchoice ⊢
  cases hchoice with
  | resume | dispatch => exact ⟨_, _, rfl⟩
  | halt hcurrent hready | deadlock hcurrent hready | wait hcurrent hready =>
    exact absurd hready (hrun.resolve_left fun hne => hne hcurrent)

theorem schedule_of_not_canRun (hrun : ¬ k.CanRun) : schedule k = k.waitOrStop := by
  obtain ⟨hcurrent, hready⟩ := not_or.1 hrun
  exact schedule_eq_waitOrStop (not_not.1 hcurrent) (not_not.1 hready)

theorem result_waitOrStop (k : Kernel) :
    k.waitOrStop.result? = some (if k.liveCount = 0 then .ok .halt
      else if k.softCount = 0 then .error .deadlock else .ok .idle) := by
  unfold Kernel.waitOrStop
  split
  · rfl
  · split
    · rfl
    · rfl

namespace Accounted

theorem onSoft_iff (hk : k.Accounted) :
    k.OnSoft h ↔ k.processes.isUsed h = true ∧ (k.processes.get h).wait.isSoft = true := by
  constructor
  · rintro (⟨d, hmem⟩ | hmem)
    · have hat := hk.at_of_mem (p := .waitList (.device d)) hmem
      exact ⟨hk.used_of_mem hat.mem, by rw [hat.wait]; rfl⟩
    · have hat := hk.at_of_mem (p := .waitList .clock) hmem
      exact ⟨hk.used_of_mem hat.mem, by rw [hat.wait]; rfl⟩
  · rintro ⟨hused, hsoft⟩
    obtain ⟨p, hat⟩ := hk.placed hused
    rw [hat.wait] at hsoft
    rcases p with _ | _ | (d | _ | address)
    · cases hsoft
    · cases hsoft
    · exact .inl ⟨d, hat.mem⟩
    · exact .inr hat.mem
    · cases hsoft

theorem onUser_iff (hk : k.Accounted) (hrun : ¬ k.CanRun) (hused : k.processes.isUsed h = true) :
    k.OnUser h ↔ (k.processes.get h).wait.isSoft = false := by
  obtain ⟨p, hat⟩ := hk.placed hused
  constructor
  · rintro ⟨address, hmem⟩
    obtain rfl := (hat.mem_iff (q := .waitList (.user address))).1 hmem
    rw [hat.wait]
    rfl
  · intro hsoft
    have hmem := hat.mem
    rw [hat.wait] at hsoft
    rcases p with _ | _ | (d | _ | address)
    · refine absurd (.inl fun hnone => ?_) hrun
      rw [show k.standing .processor = [] from congrArg Option.toList hnone] at hmem
      exact List.not_mem_nil hmem
    · exact absurd (.inr (List.ne_nil_of_mem hmem)) hrun
    · cases hsoft
    · cases hsoft
    · exact ⟨address, hmem⟩

theorem liveCount_ne_zero_iff (hk : k.Accounted) :
    k.liveCount ≠ 0 ↔ ∃ h, k.processes.isUsed h = true := by
  rw [Ne, hk.liveCount_eq_zero_iff, not_forall]
  exact exists_congr fun h => Bool.ne_false_iff

theorem softCount_ne_zero_iff (hk : k.Accounted) :
    k.softCount ≠ 0 ↔ ∃ h, k.processes.isUsed h = true ∧ k.OnSoft h := by
  rw [Ne, hk.softCount_eq_zero_iff, not_forall]
  refine exists_congr fun h => ?_
  rw [hk.onSoft_iff, Classical.not_imp, Bool.not_eq_false, and_self_left]

theorem softCount_eq_zero_iff_onUser (hk : k.Accounted) (hrun : ¬ k.CanRun) :
    k.softCount = 0 ↔ ∀ h, k.processes.isUsed h = true → k.OnUser h := by
  rw [hk.softCount_eq_zero_iff]
  exact forall_congr' fun h => forall_congr' fun hused => (hk.onUser_iff hrun hused).symm

end Accounted

/-- What `schedule` decides, and when. -/
structure SchedulesExactly (k : Kernel) : Prop where
  resume : (∃ pid state, (schedule k).result? = some (.ok (.resume pid state))) ↔ k.CanRun
  halt : (schedule k).result? = some (.ok .halt) ↔
    ¬ k.CanRun ∧ ∀ h, k.processes.isUsed h = false
  deadlock : (schedule k).result? = some (.error .deadlock) ↔
    ¬ k.CanRun ∧ (∃ h, k.processes.isUsed h = true) ∧
      ∀ h, k.processes.isUsed h = true → k.OnUser h
  idle : (schedule k).result? = some (.ok .idle) ↔
    ¬ k.CanRun ∧ ∃ h, k.processes.isUsed h = true ∧ k.OnSoft h

theorem schedulesExactly_of_canRun (hrun : k.CanRun) : k.SchedulesExactly := by
  obtain ⟨pid, state, hresult⟩ := schedule_of_canRun hrun
  have hother : ∀ {P : Prop} {other}, other ≠ .ok (.resume pid state) →
      ((schedule k).result? = some other ↔ ¬ k.CanRun ∧ P) := by
    intro P other hne
    refine iff_of_false (fun heq => hne ?_) fun hand => hand.1 hrun
    exact Option.some.inj (heq.symm.trans hresult)
  exact ⟨iff_of_true ⟨pid, state, hresult⟩ hrun, hother nofun, hother nofun, hother nofun⟩

/-- The two counters tell what the places of the processes say. -/
theorem Accounted.schedulesExactly (hk : k.Accounted) : k.SchedulesExactly := by
  by_cases hrun : k.CanRun
  · exact schedulesExactly_of_canRun hrun
  · have hresult := (congrArg result? (schedule_of_not_canRun hrun)).trans k.result_waitOrStop
    have hlive : k.softCount ≠ 0 → k.liveCount ≠ 0 := by
      rw [hk.softCount_ne_zero_iff, hk.liveCount_ne_zero_iff]
      rintro ⟨h, hused, -⟩
      exact ⟨h, hused⟩
    constructor
    case resume =>
      refine iff_of_false ?_ hrun
      rintro ⟨pid, state, heq⟩
      rw [hresult] at heq
      split_ifs at heq <;> cases heq
    case halt =>
      rw [hresult, and_iff_right hrun, ← hk.liveCount_eq_zero_iff]
      by_cases hl : k.liveCount = 0 <;> by_cases hs : k.softCount = 0 <;> simp [hl, hs]
    case deadlock =>
      rw [hresult, and_iff_right hrun, ← hk.liveCount_ne_zero_iff,
        ← hk.softCount_eq_zero_iff_onUser hrun]
      by_cases hl : k.liveCount = 0 <;> by_cases hs : k.softCount = 0 <;> simp [hl, hs]
    case idle =>
      rw [hresult, and_iff_right hrun, ← hk.softCount_ne_zero_iff]
      by_cases hs : k.softCount = 0
      · by_cases hl : k.liveCount = 0 <;> simp [hl, hs]
      · simp [hlive hs, hs]

/-! ## What stays for ever -/

/-- What a kernel that has stopped decides: to halt if nobody is alive. Otherwise it is stuck. -/
def verdict (k : Kernel) : Except Fault Decision :=
  if k.liveCount = 0 then .ok .halt else .error .deadlock

/-- A call answers with `result` and leaves a state with a property. -/
def Answers (o : Outcome Kernel Decision) (result : Except Fault Decision)
    (P : Kernel → Prop) : Prop :=
  o.Ends (fun d k' => result = .ok d ∧ P k') (fun c k' => result = .error c ∧ P k')
    fun _ => False

theorem Answers.result_eq {o : Outcome Kernel Decision} {P : Kernel → Prop}
    (ho : Answers o result P) : o.result? = some result := by
  cases o with
  | ok d k' log => exact congrArg some ho.1.symm
  | fault c k' log => exact congrArg some ho.1.symm
  | abort cause => exact False.elim ho

theorem Answers.ends {o : Outcome Kernel Decision} {P : Kernel → Prop}
    (ho : Answers o result P) : o.Ends (fun _ k' => P k') (fun _ k' => P k') fun _ => True :=
  Ends.mono ho (fun _ _ h => h.2) (fun _ _ h => h.2) fun _ _ => trivial

namespace Rests

theorem schedule (hr : k.Rests k') : Answers (Kernel.schedule k') k.verdict k.Rests := by
  have hrun : ¬ k'.CanRun := not_or.2 ⟨not_not.2 hr.stopped.current, not_not.2 hr.stopped.ready⟩
  unfold Answers verdict
  rw [schedule_of_not_canRun hrun, ← hr.books.liveCount]
  unfold Kernel.waitOrStop
  split
  · exact ⟨rfl, hr⟩
  · rw [if_pos hr.stopped.soft]
    exact ⟨rfl, hr⟩

theorem dispatch_interrupt (hr : k.Rests k') :
    Answers (dispatch .interrupt k') k.verdict k.Rests :=
  (steady_rests k).handleInterrupt hr fun _ hr' => hr'.schedule

theorem dispatch_process {vector : TrapVector} (hr : k.Rests k') (hvector : vector ≠ .interrupt) :
    Answers (dispatch vector k') (.error .noCurrentProcess) k.Rests := by
  have hsome : ∀ {h}, k'.current ≠ some h := fun {h} heq =>
    Option.some_ne_none h (heq.symm.trans hr.stopped.current)
  cases vector with
  | interrupt => exact absurd rfl hvector
  | sysBreak => exact ends_capture (fun _ => ⟨rfl, hr⟩) fun _ _ heq => absurd heq hsome
  | programTrap => exact ends_capture (fun _ => ⟨rfl, hr⟩) fun _ _ heq => absurd heq hsome
  | tlb => exact ends_capture (fun _ => ⟨rfl, hr⟩) fun _ _ heq => absurd heq hsome

theorem dispatch (hr : k.Rests k') (vector : TrapVector) :
    (Kernel.dispatch vector k').Ends (fun _ k'' => k.Rests k'') (fun _ k'' => k.Rests k'')
      fun _ => True := by
  by_cases hvector : vector = .interrupt
  · rw [hvector]
    exact hr.dispatch_interrupt.ends
  · exact (hr.dispatch_process hvector).ends

theorem call (hr : k.Rests k') (call : Call) :
    (call.run k').Ends (fun _ k'' => k.Rests k'') (fun _ k'' => k.Rests k'') fun _ => True := by
  cases call with
  | deliver event =>
    show (Kernel.deliver event k').Ends _ _ _
    rw [deliver_apply]
    cases k'.machine.trap event (k'.currentDescriptor.map (·.state)) with
    | ok trapped => exact (hr.congr (.setMachine k' trapped.2)).dispatch trapped.1
    | error cause => trivial
  | dispatch vector => exact hr.dispatch vector
  | schedule => exact hr.schedule.ends

/-- No step of a run ends the rest. -/
theorem step (hr : k.Rests k') (h : k'.Step k'') : k.Rests k'' := by
  cases h with
  | call call h => exact (hr.call call).of_state? h
  | machine machine => exact hr.congr (.setMachine k' machine)

theorem run (hr : k.Rests k') (h : Relation.ReflTransGen Step k' k'') : k.Rests k'' := by
  induction h with
  | refl => exact hr
  | tail _ hstep ih => exact ih.step hstep

end Rests

/-- A later state in which the nucleus answers every interrupt with the same result and every other
trap with a fault, and in which nobody has come, gone, or moved in the queues that matter. -/
structure Frozen (k : Kernel) (result : Except Fault Decision) (k' : Kernel) : Prop where
  schedule : (schedule k').result? = some result
  interrupt : (dispatch .interrupt k').result? = some result
  process : ∀ vector, vector ≠ .interrupt →
    (dispatch vector k').result? = some (.error .noCurrentProcess)
  live : ∀ h, k'.processes.isUsed h = k.processes.isUsed h
  pids : k'.pids = k.pids
  ready : k'.ready = k.ready
  waiting : ∀ address, k'.waits.waiting (.user address) = k.waits.waiting (.user address)

theorem Rests.frozen (hr : k.Rests k') : k.Frozen k.verdict k' where
  schedule := hr.schedule.result_eq
  interrupt := hr.dispatch_interrupt.result_eq
  process := fun _ hvector => (hr.dispatch_process hvector).result_eq
  live := hr.books.isUsed
  pids := hr.books.pids
  ready := hr.books.ready
  waiting := fun address => hr.books.standing (.waitList (.user address))

/-- A call that halts or reports a deadlock leaves a kernel at rest. -/
theorem Settles.rests {broken : Prop} {o : Outcome Kernel Decision} (ho : k.Settles broken o)
    (hresult : o.result? = some result) (hstate : o.state? = some k')
    (hfinal : result = .error .deadlock ∨ result = .ok .halt) :
    k'.Rests k' ∧ k'.verdict = result := by
  unfold verdict
  cases o with
  | ok d s log =>
    cases hresult
    cases hstate
    have hhalt : d = .halt := Except.ok.inj (hfinal.resolve_left nofun)
    obtain ⟨⟨hsound, -⟩, hstop⟩ := ho
    obtain ⟨hstopped, hlive⟩ := hstop hhalt
    exact ⟨⟨hsound, hstopped, (Alike.refl k').toSameBooks⟩, by rw [if_pos hlive, hhalt]⟩
  | fault c s log =>
    cases hresult
    cases hstate
    have hstuck : c = .deadlock := Except.error.inj (hfinal.resolve_right nofun)
    obtain ⟨⟨hsound, -⟩, hstop⟩ := ho
    obtain ⟨hstopped, hlive⟩ := hstop hstuck
    exact ⟨⟨hsound, hstopped, (Alike.refl k').toSameBooks⟩, by rw [if_neg hlive, hstuck]⟩
  | abort cause => cases hresult

/-- In every state of every run `schedule` decides exactly, and once a call has halted the machine
or reported a deadlock, the rest of the run leaves everything as it is. -/
theorem permanent_of_reachable (hk : k.Reachable) :
    k.SchedulesExactly ∧
      ∀ (call : Call) (result : Except Fault Decision) (k₁ k₂ : Kernel),
        (call.run k).result? = some result → (call.run k).state? = some k₁ →
        result = .error .deadlock ∨ result = .ok .halt →
        Relation.ReflTransGen Step k₁ k₂ → k₁.Frozen result k₂ := by
  refine ⟨hk.sound.schedulesExactly, ?_⟩
  intro call result k₁ k₂ hresult hstate hfinal hrun
  obtain ⟨broken, hsettles⟩ := hk.sound.call call
  obtain ⟨hrests, rfl⟩ := hsettles.rests hresult hstate hfinal
  exact (hrests.run hrun).frozen

/-- The root process waits for ever, or terminates itself; that is final even if the memory is
wiped. -/
theorem permanent_of_reachable_root : ∃ k : Kernel, k.Reachable ∧ k.SchedulesExactly ∧
    (∃ k₁, (deliver (.request 4 0x20000100 0 0 false) k).state? = some k₁ ∧
      k₁.Frozen (.error .deadlock) { k₁ with machine := .new }) ∧
    ∃ k₁, (deliver .exit k).state? = some k₁ ∧
      k₁.Frozen (.ok .halt) { k₁ with machine := .new } := by
  obtain ⟨k, hk, htest⟩ := exists_reachable
    (p := fun k =>
      ((deliver (.request 4 0x20000100 0 0 false) k).result? = some (.error .deadlock) ∧
        (deliver (.request 4 0x20000100 0 0 false) k).state?.isSome = true) ∧
      (deliver .exit k).result? = some (.ok .halt) ∧ (deliver .exit k).state?.isSome = true)
    [.schedule] (by decide +kernel)
  obtain ⟨⟨hwait, hwaited⟩, hexit, hexited⟩ := of_decide_eq_true htest
  obtain ⟨kw, hkw⟩ := Option.isSome_iff_exists.1 hwaited
  obtain ⟨ke, hke⟩ := Option.isSome_iff_exists.1 hexited
  have h := permanent_of_reachable hk
  refine ⟨k, hk, h.1, ⟨kw, hkw, ?_⟩, ke, hke, ?_⟩
  · exact h.2 (.deliver (.request 4 0x20000100 0 0 false)) _ kw _ hwait hkw (.inl rfl)
      (.single (.machine .new))
  · exact h.2 (.deliver .exit) _ ke _ hexit hke (.inr rfl) (.single (.machine .new))

end Nucleus.Kernel
