import Nucleus.Proofs.Kernel.Pace
import Nucleus.Proofs.Kernel.Replies

/-!
# Spawning

A process that asks for a child gets one while a descriptor is free: blank but for what it is given,
with the next pid, at the end of its parent's children and of the ready queue (`Born`). If none is
free nothing has changed in the end but the caller's saved context, its times and the machine
(`Touched`).
-/

namespace Nucleus

theorem ProcessTable.modify_modify (t : ProcessTable) (h : Slot) (f g : Descriptor → Descriptor) :
    (t.modify h f).modify h g = t.modify h (g ∘ f) := by
  have hentries : (t.descriptors.modify h f).modify h g = t.descriptors.modify h (g ∘ f) := by
    ext i
    simp only [Table.get_modify, if_true, Function.comp]
    split <;> rfl
  unfold ProcessTable.modify
  dsimp only
  rw [hentries]

namespace Kernel

open Outcome

variable {k k' k₁ : Kernel} {h c g : Slot} {machine machine' : Machine}
  {state initial : ProcessorState} {log : List Notice}

/-! ## What only the caller notices -/

/-- Nothing has changed but the machine, the time keeping, and what `h` keeps of its state and of
its times. -/
def Touched (k : Kernel) (h : Slot) (machine : Machine) (k' : Kernel) : Prop :=
  ∃ state usedTime quantumTime chargedUntil tickMicros tickUntil,
    k' = { k with
      machine, chargedUntil, tickMicros, tickUntil
      processes := k.processes.modify h ({ · with state, usedTime, quantumTime }) }

namespace Touched

theorem machine_eq (ht : k.Touched h machine k') : k'.machine = machine := by
  obtain ⟨_, _, _, _, _, _, rfl⟩ := ht
  rfl

theorem current (ht : k.Touched h machine k') : k'.current = k.current := by
  obtain ⟨_, _, _, _, _, _, rfl⟩ := ht
  rfl

/-- The machine and the time keeping have changed. -/
theorem of_times (k : Kernel) (h : Slot) (machine : Machine)
    (chargedUntil tickMicros tickUntil : Word) :
    k.Touched h machine { k with machine, chargedUntil, tickMicros, tickUntil } := by
  let d := k.processes.get h
  have hsame : k.modify h ({ · with
      state := d.state, usedTime := d.usedTime, quantumTime := d.quantumTime }) = k :=
    modify_self rfl
  refine ⟨d.state, d.usedTime, d.quantumTime, chargedUntil, tickMicros, tickUntil, ?_⟩
  conv_lhs => rw [← hsame]
  rfl

theorem trans (ht : k.Touched h machine k₁) (ht' : k₁.Touched h machine' k') :
    k.Touched h machine' k' := by
  obtain ⟨_, _, _, _, _, _, rfl⟩ := ht
  obtain ⟨state, usedTime, quantumTime, chargedUntil, tickMicros, tickUntil, rfl⟩ := ht'
  refine ⟨state, usedTime, quantumTime, chargedUntil, tickMicros, tickUntil, ?_⟩
  dsimp only
  rw [ProcessTable.modify_modify]
  rfl

theorem refl (k : Kernel) (h : Slot) : k.Touched h k.machine k :=
  of_times k h k.machine k.chargedUntil k.tickMicros k.tickUntil

/-- What the caller keeps of its state and its times changes. -/
theorem modify {f : Descriptor → Descriptor} (ht : k.Touched h machine k')
    (hf : ∀ d, ∃ state usedTime quantumTime, f d = { d with state, usedTime, quantumTime }) :
    k.Touched h machine (k'.modify h f) := by
  refine ht.trans ?_
  obtain ⟨state, usedTime, quantumTime, heq⟩ := hf (k'.processes.get h)
  refine ⟨state, usedTime, quantumTime, k'.chargedUntil, k'.tickMicros, k'.tickUntil, ?_⟩
  rw [modify_congr (e := f) (f := ({ · with state, usedTime, quantumTime })) heq,
    ← ht.machine_eq]
  rfl

theorem giveResult (ht : k.Touched h machine k') (value : Word) :
    k.Touched h machine (k'.giveResult h value) :=
  ht.modify fun d => ⟨d.state.withResult value, d.usedTime, d.quantumTime, rfl⟩

theorem charge (ht : k.Touched h machine k') (hh : k.current = some h) :
    k.Touched h machine k'.charge := by
  obtain ⟨micros, chargedUntil, heq⟩ := charge_of_current (ht.current.trans hh)
  rw [heq]
  obtain rfl := ht.machine_eq
  have htimes := of_times k' h k'.machine chargedUntil k'.tickMicros k'.tickUntil
  exact (ht.trans htimes).modify fun d => ⟨d.state, d.usedTime + micros, _, rfl⟩

/-- The state of a requesting process is saved, and it is charged. -/
theorem requested (hh : k.current = some h) : k.Touched h k.machine (k.requested h) := by
  have hsaved := (refl k h).modify (f := ({ · with
    state := k.machine.loadState TrapVector.sysBreak.oldArea })) fun d =>
      ⟨_, d.usedTime, d.quantumTime, rfl⟩
  exact (hsaved.charge hh).modify fun d => ⟨_, d.usedTime, d.quantumTime, rfl⟩

end Touched

/-- The running process goes on. -/
theorem Accounted.schedule_touched (hk : k.Accounted) (hh : k.current = some h) :
    ∃ timer k' log,
      schedule k = .ok (.resume (k.pidAt h) (k'.processes.get h).state) k' log ∧
      (k'.processes.get h).state = (k.processes.get h).state ∧
      k.Touched h (k.machine.write Bus.timer timer) k' := by
  obtain ⟨k', log, hschedule, -, hstate⟩ := schedule_of_current hk hh
  have hcharged := (Touched.refl k h).charge hh
  obtain ⟨timer, hk'⟩ : ∃ timer, k' = { k.charge.gatherTick with
      machine := k.charge.machine.write Bus.timer timer } := by
    rw [schedule_eq_resumeCurrent hh] at hschedule
    injection hschedule with _ hk' _
    exact ⟨_, hk'.symm⟩
  refine ⟨timer, k', log, ?_, hstate, ?_⟩
  · rw [hschedule, ← hstate]
    rfl
  · rw [hk', ← hcharged.machine_eq]
    exact hcharged.trans (Touched.of_times k.charge h _ _ _ _)

/-! ## Creating -/

/-- Whether a slot is free shows in the number of processes. -/
theorem Accounted.allocate_eq_none_iff (hk : k.Accounted) :
    k.processes.allocate = none ↔ k.liveCount.toNat = maxProcesses := by
  rw [hk.table.allocate_eq_none_iff, hk.live, countSlots_eq_maxProcesses_iff]

/-- The table with a new process: the child is blank but for what it is given, and the parent has
one more child. -/
theorem get_grow {u : ProcessTable} {p : Slot} (ha : k.processes.Allocated c u) (hne : p ≠ c)
    (pid : Pid) (state : ProcessorState) (g : Slot) :
    (grow u c pid state (some p)).get g =
      if c = g then { Descriptor.blank with pid, state, parent := some p }
      else if p = g then { k.processes.get p with children := k.processes.children p ++ [c] }
      else k.processes.get g := by
  have hget : ∀ g, c ≠ g → (u.modify c ({ · with pid, state })).get g = k.processes.get g :=
    fun g hg => by rw [ProcessTable.get_modify, if_neg hg, ha.get_of_ne hg]
  rw [grow, ProcessTable.get_attach hne]
  split
  · rw [ProcessTable.get_modify, if_pos rfl, ha.get_self]
  · rename_i hg
    split
    · unfold ProcessTable.children
      rw [hget p (Ne.symm hne)]
    · exact hget g hg

/-- A free slot, the next pid and the ends of two queues are what a new process gets. -/
theorem Accounted.create_eq {u : ProcessTable} (hk : k.Accounted)
    (halloc : k.processes.allocate = some (c, u)) (hlast : k.lastPid ≠ Word.allOnes)
    (state : ProcessorState) (p : Slot) :
    (create state (some p) k).Finishes fun result k' => result = some c ∧
      ∃ pids : PidIndex Slot, pids.toList.Perm ((k.lastPid + 1, c) :: k.pids.toList) ∧
        k' = { k with
          processes := grow u c (k.lastPid + 1) state (some p)
          lastPid := k.lastPid + 1
          pids
          ready := ⟨k.ready.items ++ [c]⟩
          liveCount := k.liveCount + 1 } := by
  have ha := hk.table.allocate halloc
  obtain ⟨hsucc, -, -⟩ := hk.pidAt_lt_succ hlast
  have hroom : k.pids.length < maxProcesses := by
    rw [hk.indexed.length_pids]
    exact countSlots_lt ha.wasFree
  obtain ⟨pids, hinsert, hperm⟩ := PidIndex.insert_of_lt (k.lastPid + 1) c hroom
  have hready : c ∉ k.ready.items := hk.absent ha.wasFree .ready
  obtain ⟨hlive, -⟩ := Word.succ_of_lt
    (Nat.lt_of_le_of_lt (Nat.succ_le_succ hk.liveCount_le) (by decide))
  simp only [Kernel.create, Finishes, Action.ends_bind, Action.ends_look, halloc, hsucc,
    Action.ends_check, Action.ends_change]
  refine Action.ends_attempt_ok (by dsimp only; rw [hinsert]) ?_
  refine Action.ends_attempt_ok (makeReady_of_not_mem hready) ?_
  refine Action.ends_attempt_ok (by dsimp only; rw [hlive]; rfl) ?_
  exact ⟨rfl, pids, hperm, rfl⟩

/-- A child of `h` has been created in slot `c`, blank but for its pid, its state and its parent.
The caller has changed only in its state, its times and its children. -/
structure Born (k : Kernel) (h c : Slot) (initial : ProcessorState) (k' : Kernel) : Prop where
  wasFree : k.processes.isUsed c = false
  isUsed : ∀ g, k'.processes.isUsed g = if c = g then true else k.processes.isUsed g
  child : k'.processes.get c =
    { Descriptor.blank with pid := k.lastPid + 1, state := initial, parent := some h }
  caller : ∃ state usedTime quantumTime, k'.processes.get h =
    { k.processes.get h with
      state, usedTime, quantumTime, children := k.processes.children h ++ [c] }
  others : ∀ g, c ≠ g → h ≠ g → k'.processes.get g = k.processes.get g
  pids : k'.pids.toList.Perm ((k.lastPid + 1, c) :: k.pids.toList)
  lastPid : k'.lastPid = k.lastPid + 1
  ready : k'.ready.items = k.ready.items ++ [c]
  current : k'.current = k.current
  waits : k'.waits = k.waits
  values : k'.values = k.values
  liveCount : k'.liveCount = k.liveCount + 1
  softCount : k'.softCount = k.softCount
  config : k'.config = k.config

namespace Born

/-- The caller's state was saved before. -/
theorem before (ht : k.Touched h machine k₁) (hb : k₁.Born h c initial k') :
    k.Born h c initial k' := by
  obtain ⟨state, usedTime, quantumTime, _, _, _, rfl⟩ := ht
  obtain ⟨state', usedTime', quantumTime', hcaller⟩ := hb.caller
  refine { hb with caller := ⟨state', usedTime', quantumTime', ?_⟩, others := fun g hc hg => ?_ }
  · rw [hcaller]
    simp only [ProcessTable.children, ProcessTable.get_modify, if_true]
  · rw [hb.others g hc hg]
    exact (ProcessTable.get_modify _ _ _ _).trans (if_neg hg)

/-- The caller goes on afterwards. -/
theorem after (hb : k.Born h c initial k₁) (hne : h ≠ c) (ht : k₁.Touched h machine k') :
    k.Born h c initial k' := by
  obtain ⟨state, usedTime, quantumTime, _, _, _, rfl⟩ := ht
  obtain ⟨state', usedTime', quantumTime', hcaller⟩ := hb.caller
  refine { hb with
    child := ?_, caller := ⟨state, usedTime, quantumTime, ?_⟩, others := fun g hc hg => ?_ }
  · rw [← hb.child]
    exact (ProcessTable.get_modify _ _ _ _).trans (if_neg hne)
  · dsimp only
    rw [ProcessTable.get_modify, if_pos rfl, hcaller]
  · rw [← hb.others g hc hg]
    exact (ProcessTable.get_modify _ _ _ _).trans (if_neg hg)

end Born

theorem Accounted.ne_of_allocate {u : ProcessTable} (hk : k.Accounted) (hh : k.current = some h)
    (halloc : k.processes.allocate = some (c, u)) : h ≠ c := by
  rintro rfl
  have hused := hk.used_of_current hh
  rw [(hk.table.allocate halloc).wasFree] at hused
  cases hused

/-- A process that is created on behalf of the running one is its child. -/
theorem Accounted.create_born {u : ProcessTable} (hk : k.Accounted) (hh : k.current = some h)
    (halloc : k.processes.allocate = some (c, u)) (hlast : k.lastPid ≠ Word.allOnes)
    (state : ProcessorState) : ∃ k' log,
    create state (some h) k = .ok (some c) k' log ∧ k.Born h c state k' ∧
      k'.machine = k.machine := by
  obtain ⟨result, k', log, hcreate, rfl, pids, hperm, rfl⟩ :=
    (hk.create_eq halloc hlast state h).exists
  have ha := hk.table.allocate halloc
  have hne := hk.ne_of_allocate hh halloc
  have hgrow := fun g => get_grow ha hne (k.lastPid + 1) state g
  refine ⟨_, log, hcreate, ?_, rfl⟩
  exact {
    wasFree := ha.wasFree
    isUsed := ha.isUsed
    child := by
      rw [hgrow, if_pos rfl]
    caller := by
      refine ⟨(k.processes.get h).state, (k.processes.get h).usedTime,
        (k.processes.get h).quantumTime, ?_⟩
      rw [hgrow, if_neg (Ne.symm hne), if_pos rfl]
    others := fun g hc hg => by
      rw [hgrow, if_neg hc, if_neg hg]
    pids := hperm
    lastPid := rfl
    ready := rfl
    current := rfl
    waits := rfl
    values := rfl
    liveCount := rfl
    softCount := rfl
    config := rfl }

/-! ## Requests -/

/-- The caller is resumed with a result in its saved context. -/
def ResumedWith (k : Kernel) (h : Slot) (value : Word) (o : Outcome Kernel Decision)
    (k' : Kernel) : Prop :=
  ∃ state log, o = .ok (.resume (k.pidAt h) state) k' log ∧
    (k'.processes.get h).state = state ∧ state.v0 = value

/-- A service that ends with a result for the caller lets it go on with that. -/
theorem Accounted.resumedWith {service : Service} {value : Word} (hk₁ : k₁.Accounted)
    (hh : k.current = some h) (hcurrent : k₁.current = some h) (hpid : k₁.pidAt h = k.pidAt h)
    (hservice : k.service? = some service)
    (hserve : serve h service (k.requested h) = .ok () (k₁.giveResult h value) log) :
    ∃ timer k', k.ResumedWith h value (Kernel.dispatch .sysBreak k) k' ∧
      k₁.Touched h (k₁.machine.write Bus.timer timer) k' := by
  obtain ⟨g, hg, hrun⟩ := dispatch_of_service hservice
  obtain rfl : h = g := Option.some.inj (hh.symm.trans hg)
  have hresult := Alike.giveResult k₁ h value
  obtain ⟨timer, k', log', hschedule, hstate, htouched⟩ :=
    (hk₁.congr hresult.toSameBooks).schedule_touched (h := h) (hresult.current.trans hcurrent)
  rw [hresult.pidAt, hpid] at hschedule
  refine ⟨timer, k', ⟨_, log ++ log', ?_, rfl, ?_⟩,
    ((Touched.refl k₁ h).giveResult value).trans htouched⟩
  · rw [hrun, Action.bind_apply, hserve]
    dsimp only
    rw [hschedule]
    rfl
  · rw [hstate]
    simp [giveResult, modify, Descriptor.withResult, ProcessorState.v0, ProcessorState.withResult]

/-- A request for a child is answered with its pid, or with failure if there is no slot for it. -/
theorem serve_create {stateAddress : Word} {result : Option Slot}
    (hfits : Machine.stateFits stateAddress = true)
    (hcreate : create (k.machine.loadState stateAddress) (some h) k = .ok result k₁ log) :
    serve h (.create stateAddress) k =
      .ok () (k₁.giveResult h (result.elim Service.failure k₁.pidAt))
        (log ++ result.elim [.poolExhausted] fun _ => []) := by
  have hread : k.machine.readState stateAddress = .ok (k.machine.loadState stateAddress) :=
    if_pos hfits
  show serveCreate h stateAddress k = _
  unfold serveCreate
  rw [Action.look_bind_apply, Action.check_bind_apply, hread]
  dsimp only
  rw [Action.bind_apply, hcreate]
  cases result with
  | some c => rfl
  | none => rfl

/-- While a slot is free a request for a child is answered with the pid of a new process. -/
theorem Sound.create_succeeds {stateAddress : Word} (hk : k.Sound) (hh : k.current = some h)
    (hservice : k.service? = some (.create stateAddress))
    (hfits : Machine.stateFits stateAddress = true) (hlast : k.lastPid ≠ Word.allOnes)
    (hlive : k.liveCount.toNat ≠ maxProcesses) :
    ∃ c k', k.ResumedWith h (k.lastPid + 1) (Kernel.dispatch .sysBreak k) k' ∧
      k.Born h c (k.machine.loadState stateAddress) k' := by
  have hsame := (saved_requested hh).alike
  have hk₁ := hk.congr hsame
  have hcurrent := hsame.current.trans hh
  have hroom : (k.requested h).processes.allocate ≠ none := fun hnone =>
    hlive ((congrArg UInt32.toNat hsame.liveCount).symm.trans
      (hk₁.toAccounted.allocate_eq_none_iff.1 hnone))
  obtain ⟨⟨c, u⟩, halloc⟩ := Option.ne_none_iff_exists'.1 hroom
  have hlast₁ : (k.requested h).lastPid ≠ Word.allOnes := hsame.lastPid.symm ▸ hlast
  have hne := hk₁.toAccounted.ne_of_allocate hcurrent halloc
  obtain ⟨k₂, log, hcreate, hborn, hmachine⟩ := hk₁.toAccounted.create_born hcurrent halloc hlast₁
    (k.machine.loadState stateAddress)
  have hk₂ : k₂.Sound := by
    have hends := hk₁.create (k.machine.loadState stateAddress) (some h)
      (hk₁.used_of_caller hcurrent)
    rw [hcreate] at hends
    exact hends.1
  have hborn := Born.before (Touched.requested hh) hborn
  have hpid : k₂.pidAt c = k.lastPid + 1 := by
    rw [pidAt, hborn.child]
  have hserve : Kernel.serve h (.create stateAddress) (k.requested h) =
      .ok () (k₂.giveResult h (k.lastPid + 1)) (log ++ []) := by
    rw [← k.machine_requested h] at hcreate
    rw [← hpid]
    exact serve_create hfits hcreate
  obtain ⟨state, usedTime, quantumTime, hcaller⟩ := hborn.caller
  obtain ⟨timer, k', hresumed, htouched⟩ := hk₂.toAccounted.resumedWith hh
    (hborn.current.trans hh) (by rw [pidAt, hcaller]; rfl) hservice hserve
  exact ⟨c, k', hresumed, hborn.after hne htouched⟩

/-- Without a free slot a request for a child is answered with failure. -/
theorem Sound.create_fails {stateAddress : Word} (hk : k.Sound) (hh : k.current = some h)
    (hservice : k.service? = some (.create stateAddress))
    (hfits : Machine.stateFits stateAddress = true) (hlive : k.liveCount.toNat = maxProcesses) :
    ∃ timer k', k.ResumedWith h Service.failure (Kernel.dispatch .sysBreak k) k' ∧
      k.Touched h (k.machine.write Bus.timer timer) k' := by
  have hsame := (saved_requested hh).alike
  have hk₁ := hk.congr hsame
  have hnone : (k.requested h).processes.allocate = none :=
    hk₁.toAccounted.allocate_eq_none_iff.2
      ((congrArg UInt32.toNat hsame.liveCount).trans hlive)
  have hcreate : Kernel.create ((k.requested h).machine.loadState stateAddress) (some h)
      (k.requested h) = .ok none (k.requested h) [] := by
    unfold Kernel.create
    rw [Action.look_bind_apply, hnone]
    rfl
  have hserve : Kernel.serve h (.create stateAddress) (k.requested h) =
      .ok () ((k.requested h).giveResult h Service.failure) [.poolExhausted] :=
    serve_create hfits hcreate
  obtain ⟨timer, k', hresumed, htouched⟩ := hk₁.toAccounted.resumedWith hh
    (hsame.current.trans hh) (hsame.pidAt h) hservice hserve
  rw [k.machine_requested h] at htouched
  exact ⟨timer, k', hresumed, (Touched.requested hh).trans htouched⟩

end Kernel

end Nucleus
