import Nucleus.Proofs.Kernel.Ebb

/-!
# How a run ends

Once the script is exhausted, whoever is resumed exits, and a waiting processor has its timer run
out. Every exit leaves fewer processes, and every wait ends with a tick that makes somebody run, as
long as somebody waits for it. So the loop comes to an end: with nobody left, or in a deadlock
(`Fading.exists_stop`). Which of the two it is depends on what the root process waits for
(`run_ends_of_boot`).
-/

namespace Nucleus

namespace Kernel

open Outcome

variable {k k' k₀ : Kernel} {h g : Slot} {a : Word} {P : Kernel → Prop} {p q : Progress}
  {result : Except Fault Decision} {call : Call} {machine : Machine} {config : Config}
  {start log log' : List Notice} {clock n : Nat} {vs : List Visit}

/-! ## What lasts -/

/-- The run has come from a start-up and leaves the bus alone from here on. -/
structure Fading (k₀ k : Kernel) : Prop where
  underway : ∃ clock, k₀.Underway clock k
  books : k.ClockBooks
  rooted : k.Rooted
  handlers : k.HandlersOffBus

theorem Fading.sound (hf : k₀.Fading k) : k.Sound :=
  have ⟨_, hk⟩ := hf.underway
  hk.sound

theorem Fading.step (hf : k₀.Fading k)
    (huse : ∀ address use, call.use? k ≠ some (.user address, use))
    (h : (call.run k).state? = some k') (he : k.Ebbs k') : k₀.Fading k' := by
  obtain ⟨clock, hk⟩ := hf.underway
  have hbus : call.OffBus k := ⟨hf.handlers, fun address use _ => huse address use⟩
  obtain ⟨_, -, -, -, hk'⟩ := hk.turn hbus h
  exact {
    underway := ⟨_, hk'⟩
    books := hf.books.step hf.sound (.call call h)
    rooted := hf.rooted.step hf.sound (.call call h)
    handlers := he.handlersOffBus hf.handlers }

/-- The root process survives unless it runs. -/
def KeepsRoot (k k' : Kernel) : Prop :=
  ∀ g, k.processes.isUsed g = true → k.pidAt g = rootPid → k.current ≠ some g →
    k'.processes.isUsed g = true

theorem Eases.keepsRoot (he : k.Eases k') : k.KeepsRoot k' := fun _ hg _ _ => he.lives hg

/-- A property that lasts while nothing comes from outside, and under which a wait has its end. -/
structure Lasts (P : Kernel → Prop) : Prop where
  ebbs : ∀ {k k'}, P k → k.Sound → k.Ebbs k' → k.KeepsRoot k' → P k'
  waits : ∀ {k}, P k → k.Sound → k.Rooted → k.line = [] → k.softCount ≠ 0 →
    k.waits.waiting .clock ≠ []

/-- The root process can run, or it waits for a tick, or it is gone. -/
def RootWakes (k : Kernel) : Prop :=
  ∀ g, k.processes.isUsed g = true → k.pidAt g = rootPid →
    g ∈ k.line ∨ g ∈ k.waits.waiting .clock

/-- The root process waits on a user semaphore, and nobody waits for a device. -/
structure RootBlocked (a : Word) (k : Kernel) : Prop where
  root : ∃ g ∈ k.waits.waiting (.user a), k.pidAt g = rootPid
  devices : ∀ d, k.waits.waiting (.device d) = []

theorem Rooted.exists_root (hr : k.Rooted) (hk : k.Accounted) (hlive : k.liveCount ≠ 0) :
    ∃ g, k.processes.isUsed g = true ∧ k.pidAt g = rootPid := by
  by_contra hnone
  obtain ⟨h, hh⟩ := hk.liveCount_ne_zero_iff.1 hlive
  have hgone : k.descriptor? rootPid = none := by
    by_contra hroot
    obtain ⟨g, hg, hpid, -⟩ := exists_of_descriptor? hk.indexed hroot
    exact hnone ⟨g, hg, hpid⟩
  exact descriptor?_pidAt hk.indexed hh (hr.nobody hk hgone _)

theorem Sound.liveCount_ne_zero_of_soft (hk : k.Sound) (hsoft : k.softCount ≠ 0) :
    k.liveCount ≠ 0 := by
  obtain ⟨h, hh, -⟩ := hk.softCount_ne_zero_iff.1 hsoft
  exact hk.liveCount_ne_zero_iff.2 ⟨h, hh⟩

theorem lasts_rootWakes : Lasts RootWakes where
  ebbs := fun {k k'} hp hk he _ g hg' hpid => by
    have hg := he.used hg'
    rcases hp g hg ((he.pidAt hg').symm.trans hpid) with hline | hclock
    · exact .inl (he.line hg' hline)
    · have hmem : g ∈ k.standing (.waitList .clock) := hclock
      rcases he.stays hg' hmem with hstays | ⟨-, hline⟩
      · exact .inr hstays
      · exact .inl hline
  waits := fun {k} hp hk hr hline hsoft hnil => by
    obtain ⟨g, hg, hpid⟩ := hr.exists_root hk.toAccounted (hk.liveCount_ne_zero_of_soft hsoft)
    rcases hp g hg hpid with hmem | hmem
    · rw [hline] at hmem
      cases hmem
    · rw [hnil] at hmem
      cases hmem

theorem lasts_rootBlocked (a : Word) : Lasts (RootBlocked a) where
  ebbs := fun {k k'} hp hk he hroot => by
    obtain ⟨⟨g, hmem, hpid⟩, hdevices⟩ := hp
    have hstands : g ∈ k.standing (.waitList (.user a)) := hmem
    have hat := hk.at_of_mem hstands
    have hnotrunning : k.current ≠ some g := fun hcurrent => by
      cases hat.mem_iff.1 (hk.at_processor hcurrent).mem
    have hg' := hroot g (hk.used_of_mem hstands) hpid hnotrunning
    refine ⟨⟨g, ?_, (he.pidAt hg').trans hpid⟩, fun d => he.waiting_eq_nil hk.toAccounted
      (hdevices d)⟩
    rcases he.stays hg' hstands with hstays | ⟨hnot, -⟩
    · exact hstays
    · exact absurd rfl (hnot a)
  waits := fun {k} hp hk _ _ hsoft hnil => by
    obtain ⟨h, -, ⟨d, hmem⟩ | hmem⟩ := hk.softCount_ne_zero_iff.1 hsoft
    · rw [hp.devices d] at hmem
      cases hmem
    · rw [hnil] at hmem
      cases hmem

/-! ## Rounds without events -/

theorem recover_after {α : Type} {x : Action Kernel α} {y : Action Kernel α}
    (h : x k = (y k').after log) : x.recover k = (y.recover k').after log := by
  unfold Action.recover
  rw [h]
  cases y k' <;> rfl

/-- A process that exits leaves fewer. -/
theorem Fading.exit (hf : k₀.Fading k) (hP : Lasts P) (hp : P k) (hh : k.current = some h) :
    ∃ result k' log, (deliver .exit).recover k = .ok result k' log ∧ k₀.Fading k' ∧ P k' ∧
      Poised result k' ∧ countSlots k'.processes.isUsed < countSlots k.processes.isUsed := by
  obtain ⟨k₁, before, hebbs, hgone, hroot, hrun⟩ := hf.sound.exit_run hf.rooted hh
  obtain ⟨result, k', rest, hschedule, heases, hpoised⟩ := hebbs.sound.schedule_poised.exists
  have hrecover : (deliver .exit).recover k = .ok result k' (before ++ rest) := by
    have hafter := recover_after hrun
    rw [hschedule] at hafter
    exact hafter
  have he : k.Ebbs k' := hebbs.trans heases.toEbbs
  have huse : ∀ address use, (Call.deliver .exit).use? k ≠ some (.user address, use) := by
    intro address use huse
    obtain ⟨machine, -, htrap, hservice⟩ := Call.trap?_request hh terminateRequest Word.allOnes 0 0
    cases (Call.use?_of_request htrap hservice).symm.trans huse
  have hstate : ((Call.deliver .exit).run k).state? = some k' := by
    have hsame := state?_recover (Call.run (.deliver .exit)) k
    rw [show (Call.run (.deliver .exit)).recover k = _ from hrecover] at hsame
    exact hsame.symm
  refine ⟨result, k', before ++ rest, hrecover, hf.step huse hstate he, ?_, hpoised, ?_⟩
  · refine hP.ebbs hp hf.sound he fun g hg hpid hne => heases.lives (hroot g hg hpid ?_)
    rintro rfl
    exact hne hh
  · refine countSlots_lt_of_imp (h := h) (fun g hg => he.used hg) ?_ (hf.sound.used_of_current hh)
    rw [← Bool.not_eq_true]
    intro hused
    exact Bool.false_ne_true (hgone.symm.trans (heases.used hused))

/-- A wait ends with a tick, and then somebody runs. -/
theorem Fading.timer (hf : k₀.Fading k) (hP : Lasts P) (hp : P k) (hw : k.Waits)
    (hscale : k₀.machine.read Bus.timeScale ≠ 0)
    (hfit : (k₀.config.tickInterval.toNat + 1) * (k₀.machine.read Bus.timeScale).toNat ≤
      UInt32.size) :
    ∃ pid state k' log, (deliver .timer).recover k = .ok (.ok (.resume pid state)) k' log ∧
      k₀.Fading k' ∧ P k' ∧ k'.current ≠ none ∧
      countSlots k'.processes.isUsed ≤ countSlots k.processes.isUsed := by
  obtain ⟨clock, hk⟩ := hf.underway
  rw [← hk.scale] at hscale hfit
  rw [← hk.config, ← Machine.timeScale_of_ne_zero hscale] at hfit
  have hdue : ∀ machine, k.machine.TimePasses ((Call.deliver .timer).ticks k) machine →
      k.config.tickInterval ≤ ({ k with machine } : Kernel).gatherTick.tickMicros := by
    intro machine hout
    have hfit : 0 + (k.config.tickInterval.toNat + 1) * k.machine.timeScale.toNat ≤
        UInt32.size := by omega
    exact hw.due hscale hfit (Machine.SameBus.refl k.machine).timePasses hout
  obtain ⟨k', hends⟩ := hf.sound.endsWait hf.books hw.line hw.soft hdue
  have hclock := hP.waits hp hf.sound hf.rooted hw.line hw.soft
  obtain ⟨g, others, hwaiting⟩ := List.exists_cons_of_ne_nil hclock
  obtain ⟨⟨state, log, hrun⟩, -, -⟩ :=
    hends.resumes (k.pidAt g) (others.map k.pidAt) (congrArg (List.map k.pidAt) hwaiting)
  have hrecover : (deliver .timer).recover k = .ok (.ok (.resume (k.pidAt g) state)) k' log := by
    unfold Action.recover
    rw [show deliver .timer k = _ from hrun]
  have heases := hf.sound.timer_eases
  rw [show (Call.run (.deliver .timer)).recover k = _ from hrecover] at heases
  obtain ⟨he, hpoised⟩ := heases
  have huse : ∀ address use, (Call.deliver .timer).use? k ≠ some (.user address, use) := by
    intro address use huse
    obtain ⟨machine, _, htrap, htime, htimer, -⟩ := hf.sound.timer_run
    cases (Call.use?_of_timer htrap htimer (hdue machine htime)).symm.trans huse
  exact ⟨_, state, k', log, hrecover, hf.step huse hends.state he.toEbbs,
    hP.ebbs hp hf.sound he.toEbbs he.keepsRoot, hpoised, he.countSlots_le⟩

namespace Progress

/-- Without an event to come the injection is the other event. -/
theorem inject_of_exhausted {otherwise : Event} (hscript : p.script = [])
    (h : (deliver otherwise).recover k = .ok result k' log) :
    p.inject otherwise k = .ok (p.enter result) k' log := by
  have harrive : p.arrive k = k := by simp only [arrive, hscript]
  have hevent : p.event otherwise = otherwise := by simp [event, hscript]
  unfold inject
  rw [Action.change_bind_apply, harrive, hevent, Action.bind_apply, h]
  exact congrArg (Outcome.ok _ _) (List.append_nil log)

theorem go_succ {p' : Progress} {k'' : Kernel} (hnext : p.next k = .ok p' k' log)
    (hgo : p'.go n k' = .ok q k'' log') : p.go (n + 1) k = .ok q k'' (log ++ log') := by
  unfold go
  rw [Action.bind_apply, hnext]
  exact congrArg (Outcome.after log) hgo

end Progress

/-- The loop stops once the script is exhausted: there are fewer and fewer processes, and of two
rounds at least one is an exit. -/
theorem Fading.exists_stop (hP : Lasts P) (hscale : k₀.machine.read Bus.timeScale ≠ 0)
    (hfit : (k₀.config.tickInterval.toNat + 1) * (k₀.machine.read Bus.timeScale).toNat ≤
      UInt32.size) (hf : k₀.Fading k) (hp : P k) (hscript : p.script = [])
    (hpoised : Poised p.last k) :
    ∃ n q k' log, p.go n k = .ok q k' log ∧ q.Stopped ∧ k₀.Fading k' ∧ P k' ∧
      Poised q.last k' := by
  induction hmeasure : 2 * countSlots k.processes.isUsed + (isIdle p.last).toNat
    using Nat.strong_induction_on generalizing k p with
  | _ m ih =>
    subst hmeasure
    obtain hstopped | ⟨decision, hlast, hne⟩ := p.stopped_or_going
    · exact ⟨0, p, k, [], rfl, hstopped, hf, hp, hpoised⟩
    · cases decision with
      | halt => exact absurd rfl hne
      | resume pid state =>
        rw [hlast] at hpoised ih
        obtain ⟨h, hh⟩ := Option.ne_none_iff_exists'.1 hpoised
        obtain ⟨result, k₁, log, hexit, hf₁, hp₁, hpoised₁, hfewer⟩ := hf.exit hP hp hh
        have hbound := Bool.toNat_le (isIdle result)
        obtain ⟨n, q, k', log', hgo, hrest⟩ := ih _ (by
          show 2 * countSlots k₁.processes.isUsed + (isIdle result).toNat < _
          omega) hf₁ hp₁ (p := p.enter result)
            ((p.enter_script result).trans (by rw [hscript]; rfl)) hpoised₁ rfl
        have hnext : p.next = p.inject .exit := by unfold Progress.next; rw [hlast]
        exact ⟨n + 1, q, k', log ++ log',
          Progress.go_succ (hnext ▸ Progress.inject_of_exhausted hscript hexit) hgo, hrest⟩
      | idle =>
        rw [hlast] at hpoised ih
        obtain ⟨pid, state, k₁, log, htimer, hf₁, hp₁, hrunning, hfewer⟩ :=
          hf.timer hP hp hpoised hscale hfit
        obtain ⟨n, q, k', log', hgo, hrest⟩ := ih _ (by
          show 2 * countSlots k₁.processes.isUsed + 0 < _ + 1
          omega) hf₁ hp₁ (p := p.enter (.ok (.resume pid state)))
            ((p.enter_script _).trans (by rw [hscript]; rfl)) hrunning rfl
        have hnext : p.next = p.inject .timer := by unfold Progress.next; rw [hlast]
        exact ⟨n + 1, q, k', log ++ log',
          Progress.go_succ (hnext ▸ Progress.inject_of_exhausted hscript htimer) hgo, hrest⟩

/-- So do injections without a script. -/
theorem Fading.exists_injected (hP : Lasts P) (hscale : k₀.machine.read Bus.timeScale ≠ 0)
    (hfit : (k₀.config.tickInterval.toNat + 1) * (k₀.machine.read Bus.timeScale).toNat ≤
      UInt32.size) (hf : k₀.Fading k) (hp : P k) :
    ∃ n q k' log, injected [] n k = .ok q k' log ∧ q.Stopped ∧ k₀.Fading k' ∧ P k' ∧
      Poised q.last k' := by
  obtain ⟨result, k₁, log, hschedule, heases, hpoised⟩ := hf.sound.schedule_poised.exists
  have hstate : (Call.schedule.run k).state? = some k₁ := by
    have hsame := state?_recover (Call.run .schedule) k
    rw [show (Call.run .schedule).recover k = _ from hschedule] at hsame
    exact hsame.symm
  have huse : ∀ address use, Call.schedule.use? k ≠ some (.user address, use) :=
    fun _ _ huse => by cases huse
  have hf₁ := hf.step huse hstate heases.toEbbs
  have hp₁ := hP.ebbs hp hf.sound heases.toEbbs heases.keepsRoot
  obtain ⟨n, q, k', log', hgo, hrest⟩ :=
    hf₁.exists_stop hP hscale hfit hp₁ (p := ⟨[], [], result⟩) rfl hpoised
  refine ⟨n, q, k', log ++ log', ?_, hrest⟩
  unfold injected
  rw [Action.bind_apply, hschedule]
  exact congrArg (Outcome.after log) hgo

/-! ## The end -/

theorem Progress.next_script (p : Progress) (k : Kernel) :
    (p.next k).Ends (fun q _ => q.script <:+ p.script) (fun _ _ => True) fun _ => True := by
  have hinject : ∀ event, (p.inject event k).Ends (fun q _ => q.script <:+ p.script)
      (fun _ _ => True) fun _ => True := by
    intro event
    unfold inject
    simp only [Action.ends_bind, Action.ends_change, Action.ends_recover, Action.ends_pure]
    cases deliver (p.event event) (p.arrive k) with
    | ok decision s log => exact List.tail_suffix _
    | fault cause s log => exact List.tail_suffix _
    | abort cause => trivial
  unfold next
  rcases p.last with cause | (⟨pid, state⟩ | _ | _)
  · exact List.suffix_refl _
  · exact hinject .exit
  · exact hinject .timer
  · exact List.suffix_refl _

/-- The script that is left is the rest of the script. -/
theorem Progress.go_script (p : Progress) (n : Nat) (k : Kernel) :
    (p.go n k).Ends (fun q _ => q.script <:+ p.script) (fun _ _ => True) fun _ => True := by
  induction n generalizing p k with
  | zero => exact List.suffix_refl _
  | succ n ih =>
    unfold go
    rw [Action.ends_bind]
    refine (p.next_script k).mono (fun q s hq => ?_) (fun _ _ h => h) fun _ h => h
    exact (ih q s).mono (fun _ _ h => h.trans hq) (fun _ _ h => h) fun _ h => h

theorem interruptsWait_nil (k : Kernel) : InterruptsWait [] k := by
  intro n p k' log hinjected _ next hnext
  have hends : (injected [] n k).Ends (fun p _ => p.script <:+ []) (fun _ _ => True)
      fun _ => True := by
    unfold injected
    rw [Action.ends_bind]
    cases schedule.recover k with
    | ok result s log => exact Progress.go_script _ n s
    | fault cause s log => trivial
    | abort cause => trivial
  rw [hinjected] at hends
  rw [List.suffix_nil.1 hends] at hnext
  cases hnext

theorem Diary.rooted (hrun : Diary k₀ clock vs k) (hk₀ : k₀.Sound) (hv : k₀.Vacant)
    (hr : k₀.Rooted) : k.Rooted := by
  induction hrun with
  | start => exact hr
  | call hrun call _ h ih => exact ih.step (hrun.underway hk₀ hv).sound (.call call h)
  | @machine clock ticks vs k hrun machine _ ih =>
    exact ih.step (hrun.underway hk₀ hv).sound (.machine machine)

theorem Accounted.descriptor?_eq_none (hk : k.Accounted) (hlive : k.liveCount = 0) (pid : Pid) :
    k.descriptor? pid = none := by
  by_contra hpid
  obtain ⟨h, hh, -⟩ := exists_of_descriptor? hk.indexed hpid
  exact hk.liveCount_ne_zero_iff.2 ⟨h, hh⟩ hlive

theorem rootWakes_of_lineAt (hk : k.Accounted)
    (hroot : k.descriptor? rootPid = none ∨ rootPid ∈ k.lineAt .processor ∨
      rootPid ∈ k.lineAt .ready ∨ rootPid ∈ k.lineAt (.waitList .clock)) : k.RootWakes := by
  intro g hg hpid
  rw [← hpid] at hroot
  rcases hroot with hgone | hrunning | hready | hclock
  · exact absurd hgone (descriptor?_pidAt hk.indexed hg)
  · exact .inl (mem_line_iff.2 (.inl (hk.mem_standing hg hrunning)))
  · exact .inl (mem_line_iff.2 (.inr (hk.mem_standing hg hready)))
  · exact .inr (hk.mem_standing hg hclock)

/-- If the root process wakes up, there is no deadlock. -/
theorem RootWakes.halts (hp : k.RootWakes) (hf : k₀.Fading k) (hq : q.Stopped)
    (hpoised : Poised q.last k) : q.last = .ok .halt := by
  obtain hlast | ⟨cause, hlast⟩ := hq
  · exact hlast
  · rw [hlast] at hpoised
    obtain ⟨-, hstopped, hlive⟩ := hpoised
    have hk := hf.sound.toAccounted
    obtain ⟨g, hg, hpid⟩ := hf.rooted.exists_root hk hlive
    rcases hp g hg hpid with hmem | hmem
    · rw [line, hstopped.current, hstopped.ready] at hmem
      cases hmem
    · rw [hstopped.waiting_eq_nil hk rfl] at hmem
      cases hmem

theorem RootBlocked.alive (hp : k.RootBlocked a) (hk : k.Accounted) :
    k.descriptor? rootPid ≠ none := by
  obtain ⟨g, hmem, hpid⟩ := hp.root
  rw [← hpid]
  exact descriptor?_pidAt hk.indexed (hk.used_of_mem (p := .waitList (.user a)) hmem)

/-- If the root process waits for a unit that nobody can give any more, not everybody is gone. -/
theorem RootBlocked.deadlocks (hp : k.RootBlocked a) (hf : k₀.Fading k) (hq : q.Stopped)
    (hpoised : Poised q.last k) : q.last = .error .deadlock := by
  obtain hlast | ⟨cause, hlast⟩ := hq
  · rw [hlast] at hpoised
    have hk := hf.sound.toAccounted
    obtain ⟨g, hmem, -⟩ := hp.root
    have hused := hk.used_of_mem (p := .waitList (.user a)) hmem
    exact absurd hpoised (hk.liveCount_ne_zero_iff.2 ⟨g, hused⟩)
  · rw [hlast] at hpoised
    rw [hlast, hpoised.1]

/-- A run that leaves the bus alone comes to an end once the script is exhausted. If the root
process can run or waits for a tick, or if it is gone, everybody is gone in the end. If it waits on
a user semaphore and nobody waits for a device, the run ends in a deadlock, and the root process is
still alive. -/
theorem run_ends_of_boot (hboot : boot (.new machine config) = .ok () k₀ start)
    (hscale : machine.read Bus.timeScale ≠ 0)
    (hfit : (config.tickInterval.toNat + 1) * (machine.read Bus.timeScale).toNat ≤ UInt32.size)
    (hrun : Diary k₀ clock vs k) (hbus : k.HandlersOffBus) (hscript : k.machine.script = [])
    (hhalted : k.machine.halted = false) (hcrashed : k.machine.crashed = false) :
    (k.descriptor? rootPid = none ∨ rootPid ∈ k.lineAt .processor ∨ rootPid ∈ k.lineAt .ready ∨
        rootPid ∈ k.lineAt (.waitList .clock) →
      ∃ n k' log, run n k = .ok true k' log ∧ k'.liveCount = 0 ∧
        (∀ pid, k'.descriptor? pid = none) ∧
        k'.machine.halted = true ∧ k'.machine.crashed = false) ∧
    ∀ a, rootPid ∈ k.lineAt (.waitList (.user a)) →
      (∀ d, k.lineAt (.waitList (.device d)) = []) →
      ∃ n k' log, run n k = .fault .deadlock k' log ∧ k'.descriptor? rootPid ≠ none ∧
        k'.machine.crashed = true ∧ k'.machine.halted = false := by
  have hstart := started_of_boot hboot
  have hk := hrun.underway hstart.sound hstart.vacant
  have hbooks := hk.sound.toAccounted
  have hf : k₀.Fading k := ⟨⟨clock, hk⟩, hrun.clockBooks hboot,
    hrun.rooted hstart.sound hstart.vacant (rooted_of_boot hboot), hbus⟩
  rw [← hstart.scale] at hscale
  rw [← hstart.config, ← hstart.scale] at hfit
  have hdriven := hk.sound.run_driven (hscript.symm ▸ interruptsWait_nil k)
  rw [hscript] at hdriven
  constructor
  · intro hroot
    obtain ⟨n, q, k', log, hinjected, hstopped, hf', hwakes, hpoised⟩ :=
      hf.exists_injected lasts_rootWakes hscale hfit (rootWakes_of_lineAt hbooks hroot)
    have hlast := hwakes.halts hf' hstopped hpoised
    rw [hlast] at hpoised
    obtain ⟨log', hhalt⟩ := run_of_halt hdriven hinjected hlast
    exact ⟨n + 1, _, log', hhalt, hpoised,
      hf'.sound.toAccounted.descriptor?_eq_none hpoised, rfl, hcrashed⟩
  · intro a hroot hdevices
    have hblocked : k.RootBlocked a :=
      ⟨List.mem_map.1 hroot, fun d => List.map_eq_nil_iff.1 (hdevices d)⟩
    obtain ⟨n, q, k', log, hinjected, hstopped, hf', hblocked', hpoised⟩ :=
      hf.exists_injected (lasts_rootBlocked a) hscale hfit hblocked
    have hlast := hblocked'.deadlocks hf' hstopped hpoised
    obtain ⟨log', hfault⟩ := run_of_fault hdriven hinjected hlast
    exact ⟨n + 1, _, log', hfault, hblocked'.alive hf'.sound.toAccounted, rfl, hhalted⟩

/-- The root process waits for a tick, and everybody is gone in the end. Or it waits for a unit of a
semaphore and leaves its child behind, and there is a deadlock once the child has exited. -/
theorem run_ends_of_boot_waiting :
    (∃ k₀ start clock vs k, boot (.new Machine.new .usual) = .ok () k₀ start ∧
      Diary k₀ clock vs k ∧ k.lineAt (.waitList .clock) = [1] ∧
      ∃ n k' log, run n k = .ok true k' log ∧ k'.liveCount = 0 ∧
        (∀ pid, k'.descriptor? pid = none) ∧
        k'.machine.halted = true ∧ k'.machine.crashed = false) ∧
    ∃ k₀ start clock vs k, boot (.new Machine.new .usual) = .ok () k₀ start ∧
      Diary k₀ clock vs k ∧ k.lineAt (.waitList (.user 0x20000100)) = [1] ∧
      k.lineAt .processor = [2] ∧
      ∃ n k' log, run n k = .fault .deadlock k' log ∧ k'.descriptor? rootPid ≠ none ∧
        k'.machine.crashed = true ∧ k'.machine.halted = false := by
  constructor
  · obtain ⟨k₀, start, clock, vs, k, hboot, hcalls, htest⟩ := exists_replay
      (p := fun _ _ _ k => k.HandlersOffBus ∧ k.machine.script = [] ∧ k.machine.halted = false ∧
        k.machine.crashed = false ∧ k.lineAt (.waitList .clock) = [1])
      Machine.new .usual [(0, .schedule), (5, .deliver (.request 7 0 0 0 false))]
      (by decide +kernel)
    have hrun := Diary.start.replay hcalls
    obtain ⟨hbus, hscript, hhalted, hcrashed, hwaiting⟩ := of_decide_eq_true htest
    have hends := run_ends_of_boot hboot (by decide) (by decide) hrun hbus hscript hhalted hcrashed
    exact ⟨k₀, start, clock, vs, k, hboot, hrun, hwaiting,
      hends.1 (.inr (.inr (.inr (hwaiting ▸ List.mem_cons_self))))⟩
  · obtain ⟨k₀, start, clock, vs, k, hboot, hcalls, htest⟩ := exists_replay
      (p := fun _ _ _ k => k.HandlersOffBus ∧ k.machine.script = [] ∧ k.machine.halted = false ∧
        k.machine.crashed = false ∧ k.lineAt (.waitList (.user 0x20000100)) = [1] ∧
        k.lineAt .processor = [2] ∧ k.softCount = 0)
      Machine.new .usual
      [(0, .schedule), (5, .deliver (.request 1 0x20001000 0 0 false)),
        (5, .deliver (.request 4 0x20000100 0 0 false))]
      (by decide +kernel)
    have hrun := Diary.start.replay hcalls
    obtain ⟨hbus, hscript, hhalted, hcrashed, hwaiting, hrunning, hsoft⟩ :=
      of_decide_eq_true htest
    have hends := run_ends_of_boot hboot (by decide) (by decide) hrun hbus hscript hhalted hcrashed
    have hk : k.Sound := (hrun.reachable (.boot (.new _ _) (congrArg Outcome.state? hboot))).sound
    have hdevices : ∀ d, k.lineAt (.waitList (.device d)) = [] := fun d => by
      have hle : k.waiterCount (.device d) ≤ k.softCount.toNat :=
        hk.length_waiting_le_softCount rfl
      rw [hsoft] at hle
      exact List.map_eq_nil_iff.2 (List.length_eq_zero_iff.1 (Nat.le_zero.1 hle))
    exact ⟨k₀, start, clock, vs, k, hboot, hrun, hwaiting, hrunning,
      hends.2 _ (hwaiting ▸ List.mem_cons_self) hdevices⟩

end Kernel

end Nucleus
