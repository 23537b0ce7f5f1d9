import Nucleus.Proofs.Kernel.Exhaustion
import Nucleus.Proofs.Kernel.History
import Nucleus.Proofs.Kernel.Spawning
import Nucleus.Proofs.Kernel.Tree

/-!
# Pids

Pids count processes: the n-th process that is ever created gets pid n, and a pid is not given
again. What is recorded of a run are the pids that come to life, call by call. A call creates at
most one process, and this one has the next pid (`Sound.call_counts`), so the record is always the
numbers from 1 up to the last pid (`Counted`). A process with a pid that was given before is none
that a call created, so who is gone stays away.
-/

namespace Nucleus.Kernel

open Outcome

variable {k k' k₀ k₁ : Kernel} {h : Slot} {pid : Pid} {α : Type} {deed : Deed}
  {allowed : Deed → Prop} {ms : List Move} {o : Outcome Kernel Decision} {ok : Kernel → Prop}
  {service : Service} {vector : TrapVector} {call : Call} {created : List Pid} {machine : Machine}
  {config : Config} {log : List Notice}

/-- The pids of the live processes. -/
def livePids (k : Kernel) : List Pid := k.pids.toList.map Prod.fst

theorem Indexed.mem_livePids_iff (hk : k.Indexed) :
    pid ∈ k.livePids ↔ ∃ h, k.processes.isUsed h = true ∧ k.pidAt h = pid := by
  unfold livePids
  rw [List.mem_map]
  constructor
  · rintro ⟨⟨pid, h⟩, hmem, rfl⟩
    exact ⟨h, hk.mem_iff.1 hmem⟩
  · rintro ⟨h, hh⟩
    exact ⟨(pid, h), hk.mem_iff.2 hh, rfl⟩

theorem Indexed.le_lastPid (hk : k.Indexed) (hpid : pid ∈ k.livePids) : pid ≤ k.lastPid := by
  obtain ⟨h, hh, rfl⟩ := hk.mem_livePids_iff.1 hpid
  exact hk.le_last hh

theorem eq_singleton_of_nodup {pids : List Pid} (hpids : pids.Nodup)
    (hmem : ∀ other, other ∈ pids ↔ other = pid) : pids = [pid] := by
  refine List.perm_singleton.1 ((List.perm_ext_iff_of_nodup hpids (List.nodup_singleton _)).2 ?_)
  intro other
  rw [hmem, List.mem_singleton]

theorem Accounted.length_livePids (hk : k.Accounted) : k.livePids.length = k.liveCount.toNat := by
  rw [livePids, List.length_map, hk.live]
  exact hk.indexed.length_pids

/-! ## Who is created -/

theorem Leads.lastPid_eq (h : k.Leads deed k') (hd : ∀ h parent, deed ≠ .enroll h parent) :
    k'.lastPid = k.lastPid := by
  cases h with
  | world hk => exact hk.lastPid
  | block hh hm hw => exact hm.lastPid
  | wake hq hm hw => exact hm.lastPid
  | enroll hlast he hl hw => exact absurd rfl (hd _ _)
  | retire hh hchildren hr hs => exact hr.lastPid
  | _ => rfl

theorem Course.lastPid_eq (hc : Course allowed k ms k')
    (hno : ∀ h parent, ¬ allowed (.enroll h parent)) : k'.lastPid = k.lastPid := by
  refine hc.induction (P := fun k' => k'.lastPid = k.lastPid) rfl fun heq hd h => ?_
  refine (h.lastPid_eq ?_).trans heq
  rintro c parent rfl
  exact hno c parent hd

theorem Ended.lastPid_eq (ho : Ended allowed k o ok)
    (hno : ∀ h parent, ¬ allowed (.enroll h parent)) (hs : o.state? = some k') :
    k'.lastPid = k.lastPid :=
  (ho.course hs).lastPid_eq fun h parent hd => hd.elim (hno h parent) fun ⟨_, hd⟩ => hd

/-- As long as nobody is removed, the process that was created last is alive. -/
theorem Course.lastPid_mem (hc : Course allowed k ms k') (hk : k.Accounted)
    (hno : ∀ h, ¬ allowed (.retire h)) :
    k'.lastPid = k.lastPid ∨ k'.lastPid ∈ k'.livePids := by
  refine (hc.induction (P := fun k' => k'.Accounted ∧
    (k'.lastPid = k.lastPid ∨ k'.lastPid ∈ k'.livePids)) ⟨hk, .inl rfl⟩ ?_).2
  rintro k₁ deed k' ⟨hk₁, hlast⟩ hd h
  have hk' := hk₁.leads h
  refine ⟨hk', ?_⟩
  by_cases henroll : ∃ c parent, deed = .enroll c parent
  · obtain ⟨c, parent, rfl⟩ := henroll
    cases h with
    | enroll _ he hl hw =>
      refine .inr (hk'.indexed.mem_livePids_iff.2 ⟨c, he.used_self, ?_⟩)
      rw [he.lastPid]
      exact he.grown.pid
  · push Not at henroll
    rw [h.lastPid_eq henroll]
    refine hlast.imp_right fun hmem => ?_
    obtain ⟨g, hg, hpid⟩ := hk₁.indexed.mem_livePids_iff.1 hmem
    have hg' : k'.processes.isUsed g = true := by
      refine h.used_after ?_ hg
      rintro c rfl
      exact hno c hd
    have hcontext := congrArg Context.pid (h.context hg hg')
    rw [Deed.pid_act] at hcontext
    exact hk'.indexed.mem_livePids_iff.2 ⟨g, hg', hcontext.trans hpid⟩

/-- At most one process has been created, and it is alive with the next pid. -/
def Counts (k k' : Kernel) : Prop :=
  k'.lastPid = k.lastPid ∨
    k.lastPid ≠ Word.allOnes ∧ k'.lastPid = k.lastPid + 1 ∧ k'.lastPid ∈ k'.livePids

theorem Counts.congr (hc : k.Counts k₁) (hpids : k'.pids = k₁.pids)
    (hlast : k'.lastPid = k₁.lastPid) : k.Counts k' := by
  unfold Counts livePids
  rw [hpids, hlast]
  exact hc

/-- A new process has the next pid. -/
theorem Enrolled.counts {c : Slot} (he : k.Enrolled c (k.lastPid + 1) k') (hk' : k'.Accounted) :
    k.Counts k' := by
  have hpid : k'.pidAt c = k.lastPid + 1 := he.grown.pid
  have hpos := hk'.indexed.positive he.used_self
  refine .inr ⟨?_, he.lastPid, hk'.indexed.mem_livePids_iff.2 ⟨c, he.used_self, ?_⟩⟩
  · intro hones
    rw [hpid, hones] at hpos
    exact absurd hpos (by decide)
  · rw [hpid, he.lastPid]

theorem Sound.serveCreate_counts (hk : k.Sound) (hh : k.current = some h) (stateAddress : Word) :
    (Kernel.serveCreate h stateAddress k).Ends (fun _ k' => k.Counts k') (fun _ _ => False)
      fun _ => True := by
  unfold Kernel.serveCreate
  rw [Action.look_bind_apply, Action.ends_bind, Action.ends_check]
  cases k.machine.readState stateAddress with
  | error cause => trivial
  | ok state =>
    dsimp only
    rw [Action.ends_bind]
    have hcreate := hk.create state (some h) (hk.used_of_caller hh)
    refine hcreate.mono ?_ (fun _ _ => False.elim) fun _ _ => trivial
    rintro result k₁ ⟨hk₁, ⟨rfl, rfl, -⟩ | ⟨c, rfl, he⟩⟩
    · exact Or.inl rfl
    · exact (he.counts hk₁.toAccounted).congr rfl rfl

theorem schedule_counts (hc : k.Counts k₁) : (schedule k₁).Always fun k' => k.Counts k' := by
  have hbooks : ∀ k', (∃ ready current, SameBooks { k₁ with ready, current } k') →
      k.Counts k' := by
    rintro k' ⟨ready, current, hsame⟩
    exact hc.congr hsame.pids hsame.lastPid
  exact (schedule_books k₁).mono (fun _ => hbooks) (fun _ => hbooks) fun _ => False.elim

/-- A service creates at most one process. -/
theorem Sound.serve_counts (hk : k.Sound) (hh : k.current = some h)
    (hs : ((Kernel.serve h service >>= fun _ => Kernel.schedule) k).state? = some k') :
    k.Counts k' := by
  cases hcreates : creates service with
  | false =>
    refine .inl ((serve_ended hk hh service).lastPid_eq (fun _ _ hd => ?_) hs)
    exact Bool.false_ne_true (hcreates.symm.trans hd.1)
  | true =>
    obtain ⟨stateAddress, rfl⟩ : ∃ stateAddress, service = .create stateAddress := by
      cases service with
      | create stateAddress => exact ⟨stateAddress, rfl⟩
      | _ => cases hcreates
    have hserve := hk.serveCreate_counts hh stateAddress
    have hserved := Action.ends_andThen (f := fun _ => Kernel.schedule)
      (hserve.mono (fun _ _ hc => hc) (fun _ _ => False.elim) fun _ h => h)
      fun _ _ => schedule_counts
    exact Ends.of_state? hserved hs

/-- A trap creates at most one process. -/
theorem Sound.dispatch_counts (hk : k.Sound) (hs : (Kernel.dispatch vector k).state? = some k') :
    k.Counts k' := by
  have hhandled := k.dispatch_handled vector
  generalize Kernel.dispatch vector k = o at hhandled hs
  cases hhandled with
  | nobody hv hh =>
    cases hs
    exact .inl rfl
  | idle hh cause hcause =>
    exact .inl ((serveInterrupt_ended hk cause).lastPid_eq (fun _ _ => False.elim) hs)
  | interrupt hh cause hcause hsaved hm =>
    have hended := serveInterrupt_ended (hk.congr hsaved.alike) cause
    exact .inl ((hended.lastPid_eq (fun _ _ => False.elim) hs).trans hsaved.alike.lastPid)
  | service hh hservice =>
    have hsame := (saved_requested hh).alike
    have hcounts := (hk.congr hsame).serve_counts (hsame.current.trans hh) hs
    unfold Counts at hcounts ⊢
    rwa [hsame.lastPid] at hcounts
  | @exception h vector c passed state machine k₁ hh hx hsaved hm =>
    have hk₁ := (hk.congr hsaved.alike).toAccounted
    have hended := raiseException_ended hk₁ (hsaved.alike.current.trans hh) c passed
    exact .inl ((hended.lastPid_eq (fun _ _ => False.elim) hs).trans hsaved.alike.lastPid)
  | unexpected hh hservice =>
    cases hs
    exact .inl (saved_requested hh).alike.lastPid

/-- A call creates at most one process, with the next pid. -/
theorem Sound.call_counts (hk : k.Sound) (hs : (call.run k).state? = some k') : k.Counts k' := by
  cases htrap : call.trap? k with
  | some trap =>
    obtain ⟨⟨machine, hk₁⟩, hrun⟩ := Call.run_eq_of_trap? htrap
    rw [hrun, hk₁] at hs
    exact (hk.congr (.setMachine k machine)).dispatch_counts hs
  | none =>
    rcases Call.run_of_no_trap htrap with rfl | ⟨cause, habort⟩
    · exact Ends.of_state? (schedule_counts (.inl rfl)) hs
    · rw [habort] at hs
      cases hs

theorem Sound.mem_livePids_before (hk : k.Sound) (hs : (call.run k).state? = some k')
    (hpid : pid ≤ k.lastPid) (hmem : pid ∈ k'.livePids) : pid ∈ k.livePids := by
  have hk' := hk.step (.call call hs)
  obtain ⟨g, hg⟩ := hk'.indexed.mem_livePids_iff.1 hmem
  have hlookup := hk.lookup_before hs hpid (hk'.indexed.lookup_eq_some_iff.2 hg)
  exact hk.indexed.mem_livePids_iff.2 ⟨g, hk.indexed.lookup_eq_some_iff.1 hlookup⟩

/-- Who is gone stays away. -/
theorem Sound.not_mem_livePids_later (hk : k.Sound) (hpid : pid ≤ k.lastPid)
    (hgone : pid ∉ k.livePids) (hsteps : Relation.ReflTransGen Step k k') :
    pid ∉ k'.livePids := by
  suffices h : k'.Sound ∧ pid ≤ k'.lastPid ∧ pid ∉ k'.livePids from h.2.2
  induction hsteps with
  | refl => exact ⟨hk, hpid, hgone⟩
  | tail _ hstep ih =>
    obtain ⟨hk₁, hpid₁, hgone₁⟩ := ih
    refine ⟨hk₁.step hstep, ?_⟩
    cases hstep with
    | call call hs =>
      exact ⟨UInt32.le_trans hpid₁ (hk₁.lastPid_le hs),
        fun hmem => hgone₁ (hk₁.mem_livePids_before hs hpid₁ hmem)⟩
    | machine machine => exact ⟨hpid₁, hgone₁⟩

/-! ## The record -/

/-- The pids that come to life in a call are recorded. -/
def recordCreated (_ : Call) (k k' : Kernel) (created : List Pid) : List Pid :=
  created ++ k'.livePids.filter (· ∉ k.livePids)

/-- The pids of a record are the numbers from 1 up to the last pid. -/
structure Counted (created : List Pid) (k : Kernel) : Prop where
  numbered : created.map UInt32.toNat = List.range' 1 created.length
  last : k.lastPid.toNat = created.length
  live : ∀ pid ∈ k.livePids, pid ∈ created

namespace Counted

theorem mem_iff (hc : Counted created k) : pid ∈ created ↔ 0 < pid ∧ pid ≤ k.lastPid := by
  have hmem : pid ∈ created ↔ pid.toNat ∈ created.map UInt32.toNat := by
    rw [List.mem_map]
    exact ⟨fun h => ⟨pid, h, rfl⟩, fun ⟨_, h, heq⟩ => UInt32.toNat_inj.1 heq ▸ h⟩
  rw [hmem, hc.numbered, List.mem_range'_1, UInt32.lt_iff_toNat_lt, UInt32.le_iff_toNat_le, hc.last]
  have hzero : (0 : Word).toNat = 0 := rfl
  omega

theorem toNat_next (hc : Counted created k) (hlast : k.lastPid ≠ Word.allOnes) :
    (k.lastPid + 1).toNat = created.length + 1 := by
  have hlt := UInt32.lt_iff_toNat_lt.1 (Word.succ_of_ne hlast).2
  have hone : (1 : Word).toNat = 1 := rfl
  rw [← hc.last]
  rw [UInt32.toNat_add] at hlt ⊢
  omega

/-- A call adds the pid of the process that it creates, if any. -/
theorem enter (hc : Counted created k) (hk : k.Sound) (hs : (call.run k).state? = some k') :
    Counted (recordCreated call k k' created) k' := by
  have hk' := hk.step (.call call hs)
  have hbefore : ∀ pid ∈ k'.livePids, pid ≤ k.lastPid → pid ∈ k.livePids :=
    fun pid hmem hpid => hk.mem_livePids_before hs hpid hmem
  unfold recordCreated
  rcases hk.call_counts hs with heq | ⟨hlast, heq, hmem⟩
  · have hnone : k'.livePids.filter (· ∉ k.livePids) = [] := by
      refine List.filter_eq_nil_iff.2 fun pid hpid => ?_
      have hle := hk'.indexed.le_lastPid hpid
      simpa using hbefore pid hpid (heq ▸ hle)
    rw [hnone, List.append_nil]
    refine ⟨hc.numbered, heq.symm ▸ hc.last, fun pid hpid => ?_⟩
    exact hc.live pid (hbefore pid hpid (heq ▸ hk'.indexed.le_lastPid hpid))
  · obtain ⟨-, hlt⟩ := Word.succ_of_ne hlast
    have hnext := hc.toNat_next hlast
    have hnew : k'.livePids.filter (· ∉ k.livePids) = [k.lastPid + 1] := by
      refine eq_singleton_of_nodup (hk'.indexed.nodup.filter _) fun pid => ?_
      rw [List.mem_filter, decide_eq_true_eq]
      constructor
      · rintro ⟨hpid, hout⟩
        have hle := heq ▸ hk'.indexed.le_lastPid hpid
        have hgt : ¬ pid ≤ k.lastPid := fun hle => hout (hbefore pid hpid hle)
        rw [UInt32.le_iff_toNat_le] at hle hgt
        refine UInt32.toNat_inj.1 ?_
        rw [hc.last] at hgt
        omega
      · rintro rfl
        refine ⟨heq ▸ hmem, fun hold => ?_⟩
        exact absurd hlt (UInt32.not_lt.2 (hk.indexed.le_lastPid hold))
    rw [hnew]
    refine ⟨?_, ?_, fun pid hpid => ?_⟩
    · rw [List.map_append, hc.numbered, List.length_append, List.length_singleton,
        List.range'_1_concat, List.map_singleton, hnext, Nat.add_comm]
    · rw [heq, hnext, List.length_append, List.length_singleton]
    · by_cases hold : pid ∈ k.livePids
      · exact List.mem_append_left _ (hc.live pid hold)
      · refine List.mem_append_right _ (hnew ▸ List.mem_filter.2 ⟨hpid, ?_⟩)
        exact decide_eq_true hold

end Counted

/-- After a start-up the root process lives, and nobody else. -/
theorem counted_of_boot (hboot : boot (.new machine config) = .ok () k₀ log) :
    Counted k₀.livePids k₀ := by
  have hnew := sound_new machine config
  have halong := boot_along hnew
  rw [hboot] at halong
  obtain ⟨hc, hlast⟩ := halong
  have hk := hc.accounted hnew.toAccounted
  have hlast : k₀.lastPid = rootPid := hlast
  have hroot : rootPid ∈ k₀.livePids := by
    rcases hc.lastPid_mem hnew.toAccounted (fun _ => id) with hsame | hmem
    · cases hlast.symm.trans hsame
    · exact hlast ▸ hmem
  have hlive : k₀.livePids = [rootPid] := by
    refine eq_singleton_of_nodup hk.indexed.nodup fun pid => ?_
    refine ⟨fun hpid => ?_, fun heq => heq ▸ hroot⟩
    obtain ⟨h, hh, rfl⟩ := hk.indexed.mem_livePids_iff.1 hpid
    have hpos := UInt32.lt_iff_toNat_lt.1 (hk.indexed.positive hh)
    have hle := UInt32.le_iff_toNat_le.1 (hlast ▸ hk.indexed.le_last hh)
    exact UInt32.toNat_inj.1 (Nat.le_antisymm hle hpos)
  rw [hlive]
  refine ⟨rfl, ?_, fun pid hpid => hlive ▸ hpid⟩
  rw [hlast]
  rfl

theorem counted_of_history (hboot : boot (.new machine config) = .ok () k₀ log)
    (hrun : History recordCreated k₀.livePids k₀ created k) : k.Sound ∧ Counted created k := by
  have hk₀ := sound_of_boot (congrArg Outcome.state? hboot)
  induction hrun with
  | start => exact ⟨hk₀, counted_of_boot hboot⟩
  | call hrun call hs ih => exact ⟨ih.1.step (.call call hs), ih.2.enter ih.1 hs⟩
  | machine hrun machine ih =>
    exact ⟨ih.1.step (.machine machine), ih.2.numbered, ih.2.last, ih.2.live⟩

/-! ## The law -/

/-- A request in kernel mode for a child with the state at `a1`. -/
def requestChild (a1 a2 a3 : Word) : Event := .request 1 a1 a2 a3 false

/-- The machine after the running process has requested a child with the state at `a1`. The request
has left alone what stands there, unless it overlaps registers or the areas of the traps. -/
structure Requests (k : Kernel) (a1 a2 a3 : Word) (machine : Machine) : Prop where
  trap : k.machine.trap (requestChild a1 a2 a3) (k.currentDescriptor.map (·.state)) =
    .ok (.sysBreak, machine)
  loads : (∀ i < stateWords, Machine.IsOrdinary (Machine.stateAddress a1 i)) →
    machine.loadState a1 = k.machine.loadState a1

/-- Pids count the processes, and so does a request for a child. -/
structure PidLaw (created : List Pid) (k : Kernel) : Prop where
  /-- The n-th process that was created has pid n. -/
  numbered : created.map UInt32.toNat = List.range' 1 created.length
  last : k.lastPid.toNat = created.length
  live : ∀ pid ∈ k.livePids, pid ∈ created
  /-- The pid of a process that is gone is never that of a live process again. -/
  gone : ∀ pid ∈ created, pid ∉ k.livePids →
    ∀ k', Relation.ReflTransGen Step k k' → pid ∉ k'.livePids
  /-- While a descriptor is free, a request for a child is answered with the pid of a new process
  that has the state asked for. -/
  creates : ∀ h a1 a2 a3, k.current = some h → a1 ≤ 0xffffff77 →
    created.length < Word.allOnes.toNat → k.livePids.length < maxProcesses →
    ∃ machine pid c k', k.Requests a1 a2 a3 machine ∧ pid.toNat = created.length + 1 ∧
      k.ResumedWith h pid ((Call.deliver (requestChild a1 a2 a3)).run k) k' ∧
      k.Born h c (machine.loadState a1) k' ∧ k'.livePids.Perm (pid :: k.livePids)
  /-- With all descriptors in use the answer is failure, and nothing has changed but the machine and
  what the caller keeps of its state and of its times. -/
  refuses : ∀ h a1 a2 a3, k.current = some h → a1 ≤ 0xffffff77 →
    k.livePids.length = maxProcesses →
    ∃ machine timer k', k.Requests a1 a2 a3 machine ∧
      k.ResumedWith h Service.failure ((Call.deliver (requestChild a1 a2 a3)).run k) k' ∧
      k.Touched h (machine.write Bus.timer timer) k'

theorem exists_requests (hh : k.current = some h) (a1 a2 a3 : Word) : ∃ machine,
    k.Requests a1 a2 a3 machine ∧
    (Call.deliver (requestChild a1 a2 a3)).run k = dispatch .sysBreak { k with machine } ∧
    ({ k with machine } : Kernel).service? = some (.create a1) := by
  obtain ⟨machine, htrap, hcall, hservice⟩ := Call.trap?_request hh 1 a1 a2 a3
  obtain ⟨-, hrun⟩ := Call.run_eq_of_trap? hcall
  refine ⟨machine, ⟨htrap, fun hordinary => ?_⟩, hrun, hservice⟩
  refine congrArg ProcessorState.ofWords (congrArg Table.ofFn (funext fun i => ?_))
  exact Machine.read_of_trap (hordinary i i.isLt) htrap

/-- In every run from a start-up that was not stopped, pids count the processes. -/
theorem pidLaw_of_boot (hboot : boot (.new machine config) = .ok () k₀ log)
    (hrun : History recordCreated k₀.livePids k₀ created k) : PidLaw created k := by
  obtain ⟨hk, hc⟩ := counted_of_history hboot hrun
  refine ⟨hc.numbered, hc.last, hc.live, ?_, ?_, ?_⟩
  · intro pid hpid hgone k' hsteps
    exact hk.not_mem_livePids_later (hc.mem_iff.1 hpid).2 hgone hsteps
  · intro h a1 a2 a3 hh hfits hlength hroom
    obtain ⟨machine, hrequests, hcall, hservice⟩ := exists_requests hh a1 a2 a3
    have hlast : k.lastPid ≠ Word.allOnes := by
      intro heq
      rw [← hc.last, heq] at hlength
      exact Nat.lt_irrefl _ hlength
    have hlive : k.liveCount.toNat ≠ maxProcesses := by
      rw [← hk.toAccounted.length_livePids]
      exact hroom.ne
    obtain ⟨c, k', hresumed, hborn⟩ := (hk.congr (.setMachine k machine)).create_succeeds hh
      hservice (decide_eq_true hfits) hlast hlive
    exact ⟨machine, k.lastPid + 1, c, k', hrequests, hc.toNat_next hlast, hcall ▸ hresumed,
      Born.before (.of_times k h machine _ _ _) hborn, hborn.pids.map Prod.fst⟩
  · intro h a1 a2 a3 hh hfits hfull
    obtain ⟨machine, hrequests, hcall, hservice⟩ := exists_requests hh a1 a2 a3
    rw [hk.toAccounted.length_livePids] at hfull
    obtain ⟨timer, k', hresumed, htouched⟩ := (hk.congr (.setMachine k machine)).create_fails hh
      hservice (decide_eq_true hfits) hfull
    exact ⟨machine, timer, k', hrequests, hcall ▸ hresumed,
      (Touched.of_times k h machine _ _ _).trans htouched⟩

/-- The oldest child of the root process is gone, and its slot has been taken by the third child. -/
theorem pidLaw_of_boot_recycled : ∃ k₀ log created k,
    boot (.new Machine.new .usual) = .ok () k₀ log ∧
    History recordCreated k₀.livePids k₀ created k ∧ created.length = 4 ∧ 2 ∉ k.livePids ∧
    k.livePids.length = 3 ∧ k.current ≠ none ∧ PidLaw created k := by
  let create : Call := .deliver (requestChild 0x20001000 0 0)
  obtain ⟨k₀, log, k, hboot, hsteps, htest⟩ := exists_steps
    (p := fun k => k.lastPid = 4 ∧ 2 ∉ k.livePids ∧ k.livePids.length = 3 ∧ k.current ≠ none)
    [.schedule, create, create, .deliver (.request 2 2 0 0 false), create] (by decide +kernel)
  obtain ⟨hlast, hgone, hlength, hcurrent⟩ := of_decide_eq_true htest
  obtain ⟨created, hrun⟩ := exists_history_of_steps recordCreated k₀.livePids hsteps
  have hlaw := pidLaw_of_boot hboot hrun
  refine ⟨k₀, log, created, k, hboot, hrun, ?_, hgone, hlength, hcurrent, hlaw⟩
  rw [← hlaw.last, hlast]
  rfl

end Nucleus.Kernel
