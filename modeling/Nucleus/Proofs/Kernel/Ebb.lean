import Nucleus.Proofs.Kernel.Driver
import Nucleus.Proofs.Kernel.Idle
import Nucleus.Proofs.Kernel.Tree

/-!
# Ebbing

When nothing comes from outside, nobody is created and nobody begins to wait: a process that
survives stays where it was, or can run by now (`Kernel.Ebbs`). So it is when the timer runs out,
when it is decided what runs next, and when the running process exits, which takes its descendants
with it (`Sound.exit_run`).
-/

namespace Nucleus

namespace Kernel

open Outcome

variable {k k' k₁ k₂ : Kernel} {h g : Slot} {p q : Place} {id : SemaphoreId}

/-- Nobody is created, and a process that survives stays where it was or can run by now. Only the
waiters of user semaphores cannot. -/
structure Ebbs (k k' : Kernel) : Prop where
  sound : k'.Sound
  used : ∀ {g}, k'.processes.isUsed g = true → k.processes.isUsed g = true
  pidAt : ∀ {g}, k'.processes.isUsed g = true → k'.pidAt g = k.pidAt g
  handlers : ∀ {g}, k'.processes.isUsed g = true →
    (k.processes.get g).SameHandlers (k'.processes.get g)
  stays : ∀ {g p}, k'.processes.isUsed g = true → g ∈ k.standing p →
    g ∈ k'.standing p ∨ (∀ a, p ≠ .waitList (.user a)) ∧ g ∈ k'.line

theorem mem_line_iff : g ∈ k.line ↔ g ∈ k.standing .processor ∨ g ∈ k.standing .ready :=
  List.mem_append

namespace Ebbs

/-- Whoever can run and survives can still run. -/
theorem line (he : k.Ebbs k') (hg : k'.processes.isUsed g = true) (hline : g ∈ k.line) :
    g ∈ k'.line := by
  rcases mem_line_iff.1 hline with hrunning | hready
  · rcases he.stays hg hrunning with hstays | ⟨-, hline'⟩
    · exact mem_line_iff.2 (.inl hstays)
    · exact hline'
  · rcases he.stays hg hready with hstays | ⟨-, hline'⟩
    · exact mem_line_iff.2 (.inr hstays)
    · exact hline'

theorem trans (he : k.Ebbs k₁) (he' : k₁.Ebbs k') : k.Ebbs k' where
  sound := he'.sound
  used := fun hg => he.used (he'.used hg)
  pidAt := fun hg => (he'.pidAt hg).trans (he.pidAt (he'.used hg))
  handlers := fun hg =>
    ⟨(he'.handlers hg).handlers.trans (he.handlers (he'.used hg)).handlers,
      (he'.handlers hg).announced.trans (he.handlers (he'.used hg)).announced⟩
  stays := fun hg hmem => by
    rcases he.stays (he'.used hg) hmem with hmem | ⟨hp, hline⟩
    · exact he'.stays hg hmem
    · exact .inr ⟨hp, he'.line hg hline⟩

theorem of_alike (hk : k.Sound) (hsame : k.Alike k') : k.Ebbs k' where
  sound := hk.congr hsame
  used := fun {g} hg => (hsame.isUsed g).symm.trans hg
  pidAt := fun {g} _ => hsame.pidAt g
  handlers := fun {g} _ => hsame.handlers g
  stays := fun {_ p} _ hmem => .inl ((hsame.standing p).symm ▸ hmem)

/-- A process comes to where it can run. -/
theorem of_moved (hk : k.Sound) (hat : k.At h p) (hne : p ≠ q) (hm : k.Moved h p q k')
    (hp : ∀ a, p ≠ .waitList (.user a)) (hq : q = .processor ∨ q = .ready) : k.Ebbs k' where
  sound := hk.moved hat hne hm
  used := fun {g} hg => (hm.isUsed g).symm.trans hg
  pidAt := fun {g} _ => (hm.sameLinks g).pid
  handlers := fun {g} _ => hm.sameHandlers g
  stays := fun {g r} _ hmem => by
    by_cases heq : h = g
    · subst heq
      obtain rfl := hat.mem_iff.1 hmem
      have hjoins : h ∈ k'.standing q := hm.joins ▸ List.mem_append_right _ List.mem_cons_self
      refine .inr ⟨hp, mem_line_iff.2 ?_⟩
      rcases hq with rfl | rfl
      · exact .inl hjoins
      · exact .inr hjoins
    · left
      rwa [← List.count_pos_iff, hm.count_of_ne heq, List.count_pos_iff]

/-- Some processes are gone. -/
theorem of_dismissed {hs : List Slot} (hk' : k'.Sound) (hd : k.Dismissed hs k') : k.Ebbs k' where
  sound := hk'
  used := fun {g} hg => ((hd.used_iff g).1 hg).1
  pidAt := fun {g} hg => by
    obtain ⟨hused, hnot⟩ := (hd.used_iff g).1 hg
    rw [Kernel.pidAt, hd.kept g hused hnot]
    rfl
  handlers := fun {g} hg => by
    obtain ⟨hused, hnot⟩ := (hd.used_iff g).1 hg
    rw [hd.kept g hused hnot]
    exact ⟨rfl, rfl⟩
  stays := fun {g p} hg hmem => by
    obtain ⟨-, hnot⟩ := (hd.used_iff g).1 hg
    left
    rw [hd.standing]
    exact List.mem_filter.2 ⟨hmem, by simp [hnot]⟩

/-- Nobody begins to wait. -/
theorem waiting_eq_nil (he : k.Ebbs k') (hk : k.Accounted) (hnil : k.waits.waiting id = []) :
    k'.waits.waiting id = [] := by
  refine List.eq_nil_iff_forall_not_mem.2 fun g hmem => ?_
  have hat' : k'.At g (.waitList id) := he.sound.at_of_mem hmem
  have hused := he.sound.used_of_mem hat'.mem
  obtain ⟨p, hat⟩ := hk.placed (he.used hused)
  rcases he.stays hused hat.mem with hstays | ⟨-, hline⟩
  · obtain rfl := hat'.mem_iff.1 hstays
    have hold : g ∈ k.waits.waiting id := hat.mem
    rw [hnil] at hold
    cases hold
  · rcases mem_line_iff.1 hline with hrunning | hready
    · cases hat'.mem_iff.1 hrunning
    · cases hat'.mem_iff.1 hready

theorem handlersOffBus (he : k.Ebbs k') (hspares : k.HandlersOffBus) : k'.HandlersOffBus := by
  rw [handlersOffBus_iff] at hspares ⊢
  intro h hh c
  rw [(he.handlers hh).handlers]
  exact hspares h (he.used hh) c

theorem countSlots_le (he : k.Ebbs k') :
    countSlots k'.processes.isUsed ≤ countSlots k.processes.isUsed :=
  List.countP_mono_left fun _ _ hg => he.used hg

end Ebbs

/-! ## The timer and the decision -/

/-- Nobody is created or removed, and nobody begins to wait. -/
structure Eases (k k' : Kernel) : Prop extends Ebbs k k' where
  lives : ∀ {g}, k.processes.isUsed g = true → k'.processes.isUsed g = true

namespace Eases

theorem of_alike (hk : k.Sound) (hsame : k.Alike k') : k.Eases k' :=
  ⟨.of_alike hk hsame, fun {g} hg => (hsame.isUsed g).trans hg⟩

theorem of_moved (hk : k.Sound) (hat : k.At h p) (hne : p ≠ q) (hm : k.Moved h p q k')
    (hp : ∀ a, p ≠ .waitList (.user a)) (hq : q = .processor ∨ q = .ready) : k.Eases k' :=
  ⟨.of_moved hk hat hne hm hp hq, fun {g} hg => (hm.isUsed g).trans hg⟩

theorem trans (he : k.Eases k₁) (he' : k₁.Eases k') : k.Eases k' :=
  ⟨he.toEbbs.trans he'.toEbbs, fun hg => he'.lives (he.lives hg)⟩

end Eases

/-- An interrupt makes nobody wait. -/
theorem steady_eases (k : Kernel) : Steady k.Eases where
  alike := fun he hsame => he.trans (.of_alike he.sound hsame)
  wakeNext := fun {k₁} id he hid => by
    cases hq : k₁.waits.waiting id with
    | nil =>
      rw [wakeNext_of_empty hq]
      exact he
    | cons h rest =>
      refine (wakeNext_finishes he.sound.toAccounted hq).mono fun _ k' hm => ?_
      have hmem : h ∈ k₁.standing (.waitList id) := by
        show h ∈ k₁.waits.waiting id
        exact hq ▸ List.mem_cons_self
      refine he.trans (.of_moved he.sound (he.sound.at_of_mem hmem) Place.noConfusion hm.2
        (fun a heq => ?_) (.inr rfl))
      obtain rfl := Place.waitList.inj heq
      cases hid
  expire := fun {k₁ h} he hh => by
    have hat := he.sound.at_processor hh
    refine ⟨fun hmem => Place.noConfusion (hat.mem_iff (q := .ready) |>.1 hmem), he.trans ?_⟩
    exact .of_moved he.sound hat Place.noConfusion (moved_of_expiry he.sound.toAccounted hh)
      (fun _ => Place.noConfusion) (.inr rfl)

/-- What a decision leaves: somebody runs, the timer is set for the next tick, or nobody is left. It
is stopped by a deadlock only. -/
def Poised : Except Fault Decision → Kernel → Prop
  | .ok (.resume _ _), k => k.current ≠ none
  | .ok .idle, k => k.Waits
  | .ok .halt, k => k.liveCount = 0
  | .error cause, k => cause = .deadlock ∧ k.Stopped ∧ k.liveCount ≠ 0

/-- Deciding what runs next makes nobody wait. -/
theorem Sound.schedule_eases (hk : k.Sound) : (Kernel.schedule k).Always k.Eases := by
  have hchoice := k.choice_schedule
  generalize Kernel.schedule k = o at hchoice ⊢
  cases hchoice with
  | resume =>
    exact .of_alike hk (((Alike.charge k).trans (Alike.gatherTick _)).trans (Alike.setTimer _ _))
  | @dispatch h rest hcurrent hready =>
    have hmem : h ∈ k.standing .ready := by
      show h ∈ k.ready.items
      exact hready ▸ List.mem_cons_self
    have hmoved : k.Eases { k with ready := rest, current := some h } :=
      .of_moved hk (hk.at_of_mem hmem) Place.noConfusion
        (moved_of_dispatch hk.toAccounted hcurrent hready) (fun _ => Place.noConfusion) (.inl rfl)
    refine hmoved.trans (.of_alike hmoved.sound ?_)
    refine Alike.trans (Alike.trans (Alike.trans ?_ (Alike.gatherTick _))
      (Alike.modify (fun _ => ?_) fun _ => ?_)) (Alike.setTimer _ _)
    · exact .of_eq rfl rfl rfl rfl rfl rfl rfl
    · exact ⟨rfl, rfl, rfl, rfl, rfl⟩
    · exact ⟨rfl, rfl⟩
  | halt | deadlock => exact .of_alike hk (.refl k)
  | wait => exact .of_alike hk ((Alike.gatherTick k).trans (Alike.setTimer _ _))

theorem Sound.schedule_poised (hk : k.Sound) :
    (Kernel.schedule.recover k).Finishes fun result k' => k.Eases k' ∧ Poised result k' := by
  have hends := hk.schedule
  have heases := hk.schedule_eases
  have hshows := hk.call_shows .schedule
  unfold Finishes
  rw [Action.ends_recover] at hshows ⊢
  simp only [Call.run] at hshows
  cases hrun : Kernel.schedule k with
  | ok decision k' log =>
    rw [hrun] at hends heases hshows
    refine ⟨heases, ?_⟩
    cases decision with
    | resume pid state =>
      rintro hnobody
      have hshows : k'.currentDescriptor.map (·.state) = some state := hshows.2
      rw [currentDescriptor, hnobody] at hshows
      cases hshows
    | idle => exact waits_of_schedule hrun
    | halt => exact (hends.2 rfl).2
  | fault cause k' log =>
    rw [hrun] at hends heases
    exact ⟨heases, hends.2⟩
  | abort cause =>
    rw [hrun] at hends
    exact hends

/-- A timer that runs out makes nobody wait. -/
theorem Sound.timer_eases (hk : k.Sound) :
    ((Call.deliver .timer).run.recover k).Ends
      (fun result k' => k.Eases k' ∧ Poised result k') (fun _ _ => False) fun _ => True := by
  obtain ⟨machine, htrap, -, -⟩ := Call.trap?_timer k
  obtain ⟨-, hrun⟩ := Call.run_eq_of_trap? htrap
  have hsame : k.Eases { k with machine } := .of_alike hk (.setMachine k machine)
  rw [Action.ends_recover, hrun]
  refine (steady_eases k).handleInterrupt hsame fun k₁ he => ?_
  have hpoised := he.sound.schedule_poised
  unfold Finishes at hpoised
  rw [Action.ends_recover] at hpoised
  exact hpoised.mono (fun _ _ h => ⟨he.trans h.1, h.2⟩) (fun _ _ h => ⟨he.trans h.1, h.2⟩)
    fun _ => False.elim

/-! ## Exit -/

/-- A running process that exits is terminated with its descendants. -/
theorem Sound.serveTerminate_self (hk : k.Sound) (hh : k.current = some h) :
    (Kernel.serveTerminate h Word.allOnes k).Finishes fun _ k' => ∃ k₁,
      k.Dismissed (k.processes.family maxProcesses h) k₁ ∧ k₁.Sound ∧ k₁.Alike k' := by
  have hlookup := hk.indexed.lookup_eq_some_iff.2 ⟨hk.used_of_current hh, rfl⟩
  simp only [Kernel.serveTerminate, Finishes, Action.ends_bind, Action.ends_look, if_pos,
    Action.ends_change]
  refine (hk.terminate (k.pidAt h)).ends fun found k₁ hterminated => ?_
  obtain ⟨hk₁, ⟨hnone, -⟩ | ⟨victim, hvictim, -, hd⟩⟩ := hterminated
  · cases hnone.symm.trans hlookup
  · obtain rfl := Option.some.inj (hlookup.symm.trans hvictim)
    refine ⟨k₁, hd, hk₁, ?_⟩
    split
    · exact .giveResult k₁ _ _
    · exact .refl k₁

theorem Rooted.congr (hr : k.Rooted) (hsame : k.SameBooks k') : k'.Rooted where
  started := hsame.lastPid.symm ▸ hr.started
  root := fun {g} hg hparent => by
    have hg := (hsame.isUsed g).symm.trans hg
    exact (hsame.pidAt g).trans (hr.root hg ((hsame.entry g).parent.symm.trans hparent))

/-- The root process is in nobody's family but its own. -/
theorem Rooted.not_mem_family (hr : k.Rooted) (hk : k.Accounted)
    (hh : k.processes.isUsed h = true) (hg : k.processes.isUsed g = true)
    (hpid : k.pidAt g = rootPid) (hne : g ≠ h) : g ∉ k.processes.family maxProcesses h := by
  intro hmem
  obtain ⟨-, hdescends⟩ := hk.linked.mem_family hh hmem
  have hparent := (hr.parent_eq_none_iff hk hg).2 hpid
  rcases Relation.ReflTransGen.cases_head hdescends with heq | ⟨p, hp, -⟩
  · exact hne heq
  · cases hparent.symm.trans hp

/-- If the running process exits it is terminated with its descendants, and then it is decided what
runs next. The root process survives unless it is the one that exits. -/
theorem Sound.exit_run (hk : k.Sound) (hr : k.Rooted) (hh : k.current = some h) : ∃ k₁ log,
    k.Ebbs k₁ ∧ k₁.processes.isUsed h = false ∧
    (∀ g, k.processes.isUsed g = true → k.pidAt g = rootPid → g ≠ h →
      k₁.processes.isUsed g = true) ∧
    (Call.deliver .exit).run k = (Kernel.schedule k₁).after log := by
  obtain ⟨machine, -, htrap, hservice⟩ :=
    Call.trap?_request hh terminateRequest Word.allOnes 0 0
  have hself : ({ k with machine } : Kernel).service? = some (.terminate Word.allOnes) := hservice
  obtain ⟨h', hh', hdispatch⟩ := dispatch_of_service hself
  obtain rfl : h = h' := Option.some.inj (hh.symm.trans hh')
  have hsame : k.Alike (requested { k with machine } h) :=
    (Alike.setMachine k machine).trans (saved_requested hh').alike
  have hcurrent := hsame.current.trans hh
  have hk₀ := hk.congr hsame
  obtain ⟨value, k₂, log, hserve, k₁, hd, hk₁, hresult⟩ := (hk₀.serveTerminate_self hcurrent).exists
  have hr₀ := hr.congr hsame.toSameBooks
  have hself' := hk₀.used_of_current hcurrent
  have hebbs : k.Ebbs k₂ :=
    ((Ebbs.of_alike hk hsame).trans (.of_dismissed hk₁ hd)).trans (.of_alike hk₁ hresult)
  refine ⟨k₂, log, hebbs, ?_, fun g hg hpid hne => ?_, ?_⟩
  · rw [hresult.isUsed, ← Bool.not_eq_true]
    intro hused
    exact ((hd.used_iff h).1 hused).2 (ProcessTable.self_mem_family _ h)
  · have hg₀ := (hsame.isUsed g).trans hg
    rw [hresult.isUsed]
    exact (hd.used_iff g).2 ⟨hg₀, hr₀.not_mem_family hk₀.toAccounted hself' hg₀
      ((hsame.pidAt g).trans hpid) hne⟩
  · obtain ⟨-, hrun⟩ := Call.run_eq_of_trap? htrap
    rw [show Call.run (.deliver .exit) k = _ from hrun, hdispatch, Action.bind_apply]
    have hserve : Kernel.serve h (.terminate Word.allOnes) (requested { k with machine } h) =
        .ok value k₂ log := hserve
    rw [hserve]

end Kernel

end Nucleus
