import Nucleus.Proofs.Kernel.Contexts

/-!
# The tree of processes

From a start-up that was not stopped on, the live processes form a tree with process 1 at its root:
whoever creates a process becomes its parent, and a parent is terminated only together with its
children. No link is ever searched for a cycle; there is none because a parent has a smaller pid
than its children (`treeLaw_of_boot`).
-/

namespace Nucleus.Kernel

open Outcome

variable {k k' k₀ k₁ : Kernel} {h g p : Slot} {pid : Pid} {deed : Deed} {allowed : Deed → Prop}
  {ms : List Move} {call : Call} {machine : Machine} {config : Config} {log : List Notice}

/-! ## The root -/

/-- A process without a parent is the root process. -/
structure Rooted (k : Kernel) : Prop where
  started : rootPid ≤ k.lastPid
  root : ∀ {g}, k.processes.isUsed g = true → k.processes.parentAt g = none → k.pidAt g = rootPid

/-- Only the start-up creates a process without a parent. -/
theorem Rooted.leads (hr : k.Rooted) (h : k.Leads deed k') (hd : ∀ h, deed ≠ .enroll h none) :
    k'.Rooted := by
  refine ⟨UInt32.le_trans hr.started h.lastPid_le, fun {g} hg' hparent => ?_⟩
  cases hg : k.processes.isUsed g with
  | true =>
    have hcontext := h.context hg hg'
    have hpid : k'.pidAt g = k.pidAt g :=
      (congrArg Context.pid hcontext).trans (deed.pid_act g _)
    have hlink : k'.processes.parentAt g = k.processes.parentAt g :=
      (congrArg Context.parent hcontext).trans (deed.parent_act g _)
    rw [hpid]
    exact hr.root hg (hlink.symm.trans hparent)
  | false =>
    have hnew := (h.of_new hg hg').1
    rw [show (k'.processes.get g).parent = none from hparent] at hnew
    exact absurd hnew (hd g)

theorem Rooted.course (hr : k.Rooted) (hc : Course allowed k ms k')
    (hno : ∀ h, ¬ allowed (.enroll h none)) : k'.Rooted :=
  hc.induction hr fun hr hd h => hr.leads h fun h' heq => hno h' (heq ▸ hd)

/-- A start-up that was not stopped has created the root process. -/
theorem rooted_of_boot (hboot : boot (.new machine config) = .ok () k₀ log) : k₀.Rooted := by
  have hk := sound_new machine config
  have halong := boot_along hk
  rw [hboot] at halong
  obtain ⟨hc, hlast⟩ := halong
  have hindexed := (hc.accounted hk.toAccounted).indexed
  have hone : k₀.lastPid = rootPid := hlast
  refine ⟨hone ▸ UInt32.le_refl _, fun {g} hg _ => ?_⟩
  have hpos := hindexed.positive hg
  have hle := hindexed.le_last hg
  rw [hone] at hle
  have hpos : 0 < (k₀.pidAt g).toNat := UInt32.lt_iff_toNat_lt.1 hpos
  have hle : (k₀.pidAt g).toNat ≤ 1 := UInt32.le_iff_toNat_le.1 hle
  exact UInt32.toNat_inj.1 (Nat.le_antisymm hle hpos)

theorem Rooted.step (hr : k.Rooted) (hk : k.Sound) (h : k.Step k') : k'.Rooted := by
  cases h with
  | call call hs =>
    obtain ⟨creates, hended⟩ := hk.call_ended call
    refine hr.course (hended.course hs) fun h hd => ?_
    rcases hd with ⟨-, p, hp, -⟩ | ⟨_, hd⟩
    · cases hp
    · exact hd
  | machine machine => exact ⟨hr.started, hr.root⟩

/-- Every state after a start-up is rooted. -/
theorem sound_rooted_of_steps (hboot : boot (.new machine config) = .ok () k₀ log)
    (hsteps : Relation.ReflTransGen Step k₀ k) : k.Sound ∧ k.Rooted := by
  induction hsteps with
  | refl =>
    exact ⟨sound_of_boot (congrArg Outcome.state? hboot), rooted_of_boot hboot⟩
  | tail _ hstep ih => exact ⟨ih.1.step hstep, ih.2.step ih.1 hstep⟩

/-! ## The tree -/

theorem Rooted.parent_eq_none_iff (hr : k.Rooted) (hk : k.Accounted)
    (hg : k.processes.isUsed g = true) :
    k.processes.parentAt g = none ↔ k.pidAt g = rootPid := by
  refine ⟨hr.root hg, fun hpid => ?_⟩
  cases hparent : k.processes.parentAt g with
  | none => rfl
  | some p =>
    -- The parent would have a pid between zero and that of the root process.
    obtain ⟨hp, hmem⟩ := hk.linked.parent hg hparent
    have hlater : k.pidAt p < k.pidAt g := hk.linked.later hp hmem
    have hpos := UInt32.lt_iff_toNat_lt.1 (hk.indexed.positive hp)
    rw [hpid] at hlater
    have hlater : (k.pidAt p).toNat < 1 := UInt32.lt_iff_toNat_lt.1 hlater
    exact absurd hlater (Nat.not_lt.2 hpos)

/-- Every live process descends from the root process. -/
theorem Rooted.descends (hr : k.Rooted) (hk : k.Accounted) (hg : k.processes.isUsed g = true) :
    Relation.ReflTransGen (fun p c => k.parent c = some p) rootPid (k.pidAt g) := by
  induction hn : (k.pidAt g).toNat using Nat.strong_induction_on generalizing g with
  | _ n ih =>
    have hlookup := hk.indexed.lookup_eq_some_iff.2 ⟨hg, rfl⟩
    cases hparent : k.processes.parentAt g with
    | none => rw [hr.root hg hparent]
    | some p =>
      obtain ⟨hp, hmem⟩ := hk.linked.parent hg hparent
      have hlater : k.pidAt p < k.pidAt g := hk.linked.later hp hmem
      have hlt : (k.pidAt p).toNat < n := hn ▸ UInt32.lt_iff_toNat_lt.1 hlater
      refine (ih _ hlt hp rfl).tail ?_
      rw [parent_eq_map hlookup]
      exact congrArg (Option.map k.pidAt) hparent

/-- A process that asks for its parent is resumed with the pid of that. -/
theorem parentPid_resumes (hk : k.Sound) (hservice : k.service? = some .parentPid) :
    ∃ h state k' log, k.current = some h ∧
      dispatch .sysBreak k = .ok (.resume (k.pidAt h) state) k' log ∧
      state.v0 = (k.parent (k.pidAt h)).getD Service.failure := by
  obtain ⟨h, hh, -⟩ := dispatch_of_service hservice
  have hsame := (saved_requested hh).alike
  have hlookup := hk.indexed.lookup_eq_some_iff.2 ⟨hk.used_of_current hh, rfl⟩
  have hparent : ((k.requested h).processes.get h).parent.map (k.requested h).pidAt =
      k.parent (k.pidAt h) := by
    rw [parent_eq_map hlookup, (hsame.entry h).parent, funext hsame.pidAt]
    rfl
  obtain ⟨state, k', log, hrun, hresult⟩ := dispatch_resumes hk hh hservice rfl (.refl _)
  exact ⟨h, state, k', log, hh, hrun, hresult.trans (congrArg (Option.getD · _) hparent)⟩

/-! ## By pids -/

theorem exists_of_descriptor? (hk : k.Indexed) (hpid : k.descriptor? pid ≠ none) :
    ∃ h, k.processes.isUsed h = true ∧ k.pidAt h = pid ∧ k.pids.lookup pid = some h := by
  obtain ⟨d, hd⟩ := Option.ne_none_iff_exists'.1 hpid
  obtain ⟨h, hlookup, -⟩ := Option.map_eq_some_iff.1 hd
  obtain ⟨hused, hpidAt⟩ := hk.lookup_eq_some_iff.1 hlookup
  exact ⟨h, hused, hpidAt, hlookup⟩

theorem descriptor?_pidAt (hk : k.Indexed) (hg : k.processes.isUsed g = true) :
    k.descriptor? (k.pidAt g) ≠ none := by
  rw [descriptor?, hk.lookup_eq_some_iff.2 ⟨hg, rfl⟩]
  exact Option.some_ne_none _

/-- A parent is alive and has a smaller pid. -/
theorem Accounted.of_parent (hk : k.Accounted) {p : Pid} (hp : k.parent pid = some p) :
    k.descriptor? p ≠ none ∧ p < pid := by
  have hlive : k.descriptor? pid ≠ none := by
    intro hnone
    rw [Kernel.parent, hnone] at hp
    cases hp
  obtain ⟨h, hused, rfl, hlookup⟩ := exists_of_descriptor? hk.indexed hlive
  rw [parent_eq_map hlookup] at hp
  obtain ⟨g, hparent, rfl⟩ := Option.map_eq_some_iff.1 hp
  obtain ⟨hg, hmem⟩ := hk.linked.parent hused hparent
  exact ⟨descriptor?_pidAt hk.indexed hg, hk.linked.later hg hmem⟩

theorem Rooted.parent_eq_none_iff_pid (hr : k.Rooted) (hk : k.Accounted)
    (hpid : k.descriptor? pid ≠ none) : k.parent pid = none ↔ pid = rootPid := by
  obtain ⟨h, hused, rfl, hlookup⟩ := exists_of_descriptor? hk.indexed hpid
  rw [parent_eq_map hlookup, Option.map_eq_none_iff]
  exact hr.parent_eq_none_iff hk hused

/-- Without the root process nobody is alive. -/
theorem Rooted.nobody (hr : k.Rooted) (hk : k.Accounted) (hnone : k.descriptor? rootPid = none)
    (pid : Pid) : k.descriptor? pid = none := by
  by_contra hpid
  obtain ⟨h, hused, rfl, -⟩ := exists_of_descriptor? hk.indexed hpid
  -- The first step of the descent starts at the root process.
  rcases Relation.ReflTransGen.cases_head (hr.descends hk hused) with heq | ⟨c, hc, -⟩
  · exact hpid (heq ▸ hnone)
  · exact (hk.of_parent hc).1 hnone

/-- The root process is told that it has no parent, any other one the pid of a live process. -/
theorem Rooted.parentPid_answers (hr : k.Rooted) (hk : k.Sound)
    (hservice : k.service? = some .parentPid) :
    ∃ h state k' log, k.current = some h ∧
      dispatch .sysBreak k = .ok (.resume (k.pidAt h) state) k' log ∧
      (state.v0 = Service.failure ↔ k.pidAt h = rootPid) ∧
      (k.pidAt h ≠ rootPid →
        k.parent (k.pidAt h) = some state.v0 ∧ k.descriptor? state.v0 ≠ none) := by
  obtain ⟨h, state, k', log, hh, hdispatch, hv0⟩ := parentPid_resumes hk hservice
  have hlive := descriptor?_pidAt hk.indexed (hk.used_of_current hh)
  have hiff := hr.parent_eq_none_iff_pid hk.toAccounted hlive
  refine ⟨h, state, k', log, hh, hdispatch, ?_⟩
  cases hparent : k.parent (k.pidAt h) with
  | none =>
    rw [hparent] at hv0
    have hpid := hiff.1 hparent
    exact ⟨iff_of_true hv0 hpid, fun hne => absurd hpid hne⟩
  | some p =>
    rw [hparent] at hv0
    obtain rfl : state.v0 = p := hv0
    obtain ⟨hp, hlt⟩ := hk.toAccounted.of_parent hparent
    have hne : k.pidAt h ≠ rootPid := fun hpid =>
      Option.some_ne_none _ (hparent.symm.trans (hiff.2 hpid))
    -- No pid is greater than that of all ones.
    have hother : state.v0 ≠ Service.failure := by
      intro heq
      rw [heq] at hlt
      have hmost := (k.pidAt h).toNat_lt
      have hlt : 4294967295 < (k.pidAt h).toNat := UInt32.lt_iff_toNat_lt.1 hlt
      omega
    exact ⟨iff_of_false hother hne, fun _ => ⟨rfl, hp⟩⟩

/-! ## The law -/

/-- The live processes form a tree with process 1 at its root. -/
structure TreeLaw (k : Kernel) : Prop where
  /-- The links of live processes agree both ways and name live processes, and every list of
  children is in the order of the pids, which are greater than that of the parent. -/
  links : k.processes.Linked
  nodup : ∀ h, k.processes.isUsed h = true → (k.processes.children h).Nodup
  later : ∀ pid p, k.parent pid = some p → p < pid
  root : ∀ pid, k.descriptor? pid ≠ none → (k.parent pid = none ↔ pid = rootPid)
  descends : ∀ pid, k.descriptor? pid ≠ none →
    Relation.ReflTransGen (fun p c => k.parent c = some p) rootPid pid
  nobody : k.descriptor? rootPid = none → ∀ pid, k.descriptor? pid = none
  /-- A request for the pid of the parent is answered with that of a live process, and with failure
  only if the root process asks. -/
  parentPid : ∀ (call : Call) (k₁ : Kernel), call.trap? k = some (.sysBreak, k₁) →
    k₁.service? = some .parentPid →
    ∃ h state k' log, k.current = some h ∧
      call.run k = .ok (.resume (k.pidAt h) state) k' log ∧
      (state.v0 = Service.failure ↔ k.pidAt h = rootPid) ∧
      (k.pidAt h ≠ rootPid → k.parent (k.pidAt h) = some state.v0 ∧ k.descriptor? state.v0 ≠ none)

/-- From a start-up that was not stopped on, the live processes form a tree. -/
theorem treeLaw_of_boot (hboot : boot (.new machine config) = .ok () k₀ log)
    (hsteps : Relation.ReflTransGen Step k₀ k) : k.TreeLaw := by
  obtain ⟨hk, hr⟩ := sound_rooted_of_steps hboot hsteps
  refine ⟨hk.linked, fun h hh => ?_, fun pid p hp => (hk.toAccounted.of_parent hp).2,
    fun pid => hr.parent_eq_none_iff_pid hk.toAccounted, fun pid hpid => ?_,
    hr.nobody hk.toAccounted, fun call k₁ htrap hservice => ?_⟩
  · exact (hk.linked.ascending hh).imp fun {a b} hlt (heq : a = b) =>
      UInt32.lt_irrefl _ (heq ▸ hlt)
  · obtain ⟨h, hused, rfl, -⟩ := exists_of_descriptor? hk.indexed hpid
    exact hr.descends hk.toAccounted hused
  · obtain ⟨⟨machine, rfl⟩, hrun⟩ := Call.run_eq_of_trap? htrap
    have hr₁ : Rooted { k with machine } := ⟨hr.started, hr.root⟩
    rw [hrun]
    exact hr₁.parentPid_answers (hk.congr (.setMachine k machine)) hservice

/-- The oldest child of the root process is terminated, and another is created. -/
theorem treeLaw_of_boot_terminated : ∃ k₀ log k,
    boot (.new Machine.new .usual) = .ok () k₀ log ∧ Relation.ReflTransGen Step k₀ k ∧
    k.children rootPid = [3, 4] ∧ k.TreeLaw := by
  obtain ⟨k₀, log, k, hboot, hsteps, htest⟩ := exists_steps
    (p := fun k => k.children rootPid = [3, 4])
    [.schedule, .deliver (.request 1 0x20001000 0 0 false),
      .deliver (.request 1 0x20001000 0 0 false), .deliver (.request 2 2 0 0 false),
      .deliver (.request 1 0x20001000 0 0 false)] (by decide +kernel)
  exact ⟨k₀, log, k, hboot, hsteps, of_decide_eq_true htest, treeLaw_of_boot hboot hsteps⟩

end Nucleus.Kernel
