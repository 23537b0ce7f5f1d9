import Nucleus.Proofs.Kernel.Calls
import Nucleus.Proofs.Kernel.Timeless

/-!
# Calm actions

The services, the interrupts and the exceptions are calm: they take no time and report nothing that
has to do with it. Only telling the processor time charges the running process, and only the timer
gathers time, ticks the pseudo-clock or ends a quantum.
-/

namespace Nucleus

namespace Kernel

open Outcome

variable {k k' : Kernel} {h caller : Slot} {id : SemaphoreId} {α : Type}

/-! ## Moving processes -/

/-- The running process blocks on a semaphore. -/
theorem suspend_calm (hk : k.Accounted) (hh : k.current = some h) (hid : id.OffBus) :
    Calm k (suspend id id.waitKind k) := by
  have hends := Ends.and_always (suspend_ends hk hh) (suspend_sameWorld id _ k)
  refine (hends.tells (suspend_tells hh id _)).mono ?_ ?_
  · rintro _ k' log ⟨⟨hm, hw⟩, rfl⟩
    have hd : k.Leads (.block h id) k' := .block hh hm hw
    exact ⟨hd.timeless hk hid hw.toSameClocks.sameTimes nofun, hk.leads hd,
      quiet_singleton rfl⟩
  · rintro _ k' log ⟨⟨⟨-, rfl⟩, -⟩, rfl⟩
    exact ⟨.refl k', quiet_nil⟩

theorem wakeNext_calm (hk : k.Accounted) (id : SemaphoreId) : Calm k (wakeNext id k) := by
  cases hq : k.waits.waiting id with
  | nil =>
    rw [wakeNext_of_empty hq]
    exact .pure hk none
  | cons h rest =>
    have hends := (wakeNext_finishes hk hq).and_always (wakeNext_sameWorld id k)
    refine (Ends.tells hends (wakeNext_tells id k)).mono ?_ fun _ _ _ h => h.1.elim
    rintro _ k' log ⟨⟨⟨rfl, hm⟩, hw⟩, rfl⟩
    have hd : k.Leads (.wake h id) k' := .wake hq hm hw
    exact ⟨hd.timeless hk trivial hw.toSameClocks.sameTimes nofun, hk.leads hd,
      quiet_singleton rfl⟩

/-! ## Families -/

/-- A process in a slot that was handed out has used no time. -/
theorem times_of_grow {u : ProcessTable} {parent : Option Slot} (ha : k.processes.Allocated h u)
    (hparent : ∀ p, parent = some p → k.processes.isUsed p = true) (pid : Pid)
    (state : ProcessorState) :
    ((grow u h pid state parent).get h).usedTime = 0 ∧
      ((grow u h pid state parent).get h).quantumTime = 0 := by
  cases parent with
  | none =>
    rw [grow, ProcessTable.get_modify, if_pos rfl, ha.get_self]
    exact ⟨rfl, rfl⟩
  | some p =>
    have hne : p ≠ h := by
      rintro rfl
      exact Bool.false_ne_true (ha.wasFree.symm.trans (hparent p rfl))
    rw [grow, ProcessTable.get_attach hne, if_pos rfl, ProcessTable.get_modify, if_pos rfl,
      ha.get_self]
    exact ⟨rfl, rfl⟩

theorem create_quiet (state : ProcessorState) (parent : Option Slot) (k : Kernel) :
    (create state parent k).Tells (fun _ _ log => Quiet log) fun _ _ log => Quiet log := by
  simp only [create, Action.tells_bind, Action.tells_look]
  cases k.processes.allocate with
  | none => exact quiet_nil
  | some slotAndTable =>
    simp only [Action.tells_bind, Action.tells_look, Action.tells_change]
    refine Action.tells_check fun pid _ => Action.tells_attempt fun k₁ _ => ?_
    cases parent with
    | none =>
      simp only [Action.tells_bind]
      exact Action.tells_attempt fun _ _ => Action.tells_attempt fun _ _ => quiet_singleton rfl
    | some p =>
      simp only [Action.tells_bind, Action.tells_change]
      exact Action.tells_attempt fun _ _ => Action.tells_attempt fun _ _ => quiet_singleton rfl

theorem create_calm (hk : k.Sound) (state : ProcessorState) (parent : Option Slot)
    (hparent : ∀ p, parent = some p → k.processes.isUsed p = true) :
    Calm k (create state parent k) := by
  have hends := (hk.create state parent hparent).and_always (create_sameWorld state parent k)
  have htells := (Ends.tells hends (create_tells state parent k)).and (create_quiet state parent k)
  refine Tells.mono htells ?_ ?_
  · rintro result k' log ⟨⟨⟨⟨hk', hresult⟩, hw⟩, -, hlinks⟩, hquiet⟩
    refine ⟨?_, hk'.toAccounted, hquiet⟩
    rcases hresult with ⟨rfl, rfl, -⟩ | ⟨h, rfl, he⟩
    · exact .refl k'
    · obtain ⟨hlast, u, halloc, htable⟩ := hlinks h rfl
      have ha := hk.table.allocate halloc
      have hl := linking_of_grow ha hparent state htable
      have hd : k.Leads (.enroll h parent) k' := .enroll hlast he hl hw
      refine hd.timeless hk.toAccounted trivial hw.toSameClocks.sameTimes fun g p heq => ?_
      obtain ⟨rfl, -⟩ := Deed.enroll.inj heq
      rw [htable]
      exact times_of_grow ha hparent _ state
  · rintro _ _ _ ⟨⟨⟨hnever, -⟩, -⟩, -⟩
    exact hnever.elim

/-- No process gives back a unit in a register of the bus. -/
theorem sameTimes_refund (hk : k.Accounted) (hv : k.Vacant) (hh : k.processes.isUsed h = true) :
    k.SameTimes (refund { k with processes := k.processes.detach h } h) := by
  obtain ⟨p, hp⟩ := hk.placed hh
  set detached : Kernel := { k with processes := k.processes.detach h }
  have hdetach : k.SameTimes detached := ⟨.refl k.machine, rfl, rfl, rfl, rfl⟩
  rcases refund_cases (hp.detach h) with ⟨hsame, -⟩ | ⟨id, rfl, -, hadd⟩
  · rw [hsame]
    exact hdetach
  · have hbus : id.OffBus := by
      cases id with
      | device d => exact SemaphoreId.offBus_device d
      | clock => exact SemaphoreId.offBus_clock
      | user address =>
        intro haddress
        have hmem : h ∈ k.waits.waiting (.user address) := hp.mem
        rw [hv address haddress] at hmem
        exact List.not_mem_nil hmem
    rw [hadd]
    exact hdetach.trans (sameTimes_add hbus detached 1)

theorem retire_calm (hk : k.Accounted) (hv : k.Vacant) (hh : k.processes.isUsed h = true)
    (hchildren : k.processes.children h = []) :
    (retire h k).Tells (fun _ k' log => (k.Timeless k' ∧ k'.Accounted ∧ Quiet log) ∧ k.Retired h k')
      fun _ _ _ => False := by
  have hends := (retire_finishes hk hh).and_always (retire_sameWorld h k)
  refine (Ends.tells hends (retire_tells h k)).mono ?_ fun _ _ _ h => h.1
  rintro _ k' log ⟨⟨hr, hw⟩, rfl⟩
  have hs : k'.values.statuses = k.values.statuses :=
    (congrArg SemaphoreValues.statuses hw.values).trans (statuses_refund _ h)
  have hd : k.Leads (.retire h) k' := .retire hh hchildren hr hs
  have htimes := (sameTimes_refund hk hv hh).trans hw.toSameClocks.sameTimes
  exact ⟨⟨hd.timeless hk trivial htimes nofun, hk.leads hd, quiet_singleton rfl⟩, hr⟩

/-- Processes that are listed after their children are retired one after the other. -/
theorem retireAll_calm {hs : List Slot} (hk : k.Accounted) (hv : k.Vacant)
    (hl : k.Retirable hs) : Calm k (hs.forM retire k) := by
  induction hs generalizing k with
  | nil => exact .pure hk ()
  | cons h hs ih =>
    have hretire := retire_calm hk hv hl.head hl.children_head
    refine Action.tells_bind.2 (hretire.mono ?_ fun _ _ _ => False.elim)
    rintro _ k₁ log ⟨⟨htime, hk₁, hquiet⟩, hr⟩
    exact (ih hk₁ (htime.vacant hv) (hl.tail hr)).following htime hquiet

theorem terminate_calm (hk : k.Accounted) (hv : k.Vacant) (pid : Pid) :
    Calm k (terminate pid k) := by
  cases hlookup : k.pids.lookup pid with
  | none =>
    rw [terminate_of_dead hlookup]
    exact .pure hk false
  | some victim =>
    obtain ⟨hvictim, -⟩ := hk.indexed.lookup_eq_some_iff.1 hlookup
    rw [terminate_of_live hlookup]
    exact (retireAll_calm hk hv (hk.retirable hvictim)).bind fun _ k' _ hk' => .pure hk' true

/-! ## Services -/

/-- The semaphore that a service uses is not in a register of the bus. -/
def SparesBus : Service → Prop
  | .signal address | .wait address => ¬ Bus.IsRegister address
  | .create _ | .terminate _ | .pid | .usedTime | .waitClock | .waitDevice _ _ _ | .parentPid
  | .announce _ _ => True

theorem giveResult_calm (hk : k.Accounted) (h : Slot) (value : Kernel → Word) :
    Calm k (Action.change (fun k => k.giveResult h (value k)) k) :=
  .change (.giveResult k h (value k)) (hk.congr (Alike.giveResult k h (value k)).toSameBooks)

theorem acquire_calm (hk : k.Accounted) (hh : k.current = some caller) (hid : id.OffBus) :
    Calm k (acquire id id.waitKind k) := by
  have hadd : (k.add id (-1)).Accounted := hk.congr (Alike.add k id (-1)).toSameBooks
  unfold acquire
  rw [Action.change_bind_apply]
  refine .of_timeless (.add hid k (-1)) ?_
  rw [Action.look_bind_apply]
  split
  · exact (suspend_calm hadd hh hid).bind fun _ _ _ hk₁ => .pure hk₁ false
  · exact .pure hadd true

theorem signal_calm (hk : k.Accounted) (hid : id.OffBus) : Calm k (signal id k) := by
  have hadd : (k.add id 1).Accounted := hk.congr (Alike.add k id 1).toSameBooks
  unfold signal
  rw [Action.change_bind_apply]
  exact .of_timeless (.add hid k 1) (wakeNext_calm hadd id).discard

theorem awaitDevice_calm (hk : k.Accounted) (hh : k.current = some caller) (line unit : Word)
    (read : Bool) : Calm k (awaitDevice caller line unit read k) := by
  unfold awaitDevice
  cases (DeviceFamily.ofLine? line read).bind (Device.ofNumber? · unit) with
  | none => exact .fail _
  | some d =>
    refine (acquire_calm hk hh (SemaphoreId.offBus_device d)).bind fun went k₁ _ hk₁ => ?_
    cases went with
    | true => exact giveResult_calm hk₁ caller (·.latched d)
    | false => exact .pure hk₁ ()

theorem serveCreate_calm (hk : k.Sound) (hh : k.current = some caller) (stateAddress : Word) :
    Calm k (serveCreate caller stateAddress k) := by
  unfold serveCreate
  rw [Action.look_bind_apply, Action.check_bind_apply]
  cases k.machine.readState stateAddress with
  | error cause => trivial
  | ok state =>
    have hcreate := create_calm hk state (some caller) (hk.used_of_caller hh)
    refine hcreate.bind fun result k₁ _ hk₁ => ?_
    cases result with
    | some child => exact giveResult_calm hk₁ caller (·.pidAt child)
    | none => exact .note_bind rfl (giveResult_calm hk₁ caller fun _ => Service.failure)

theorem serveTerminate_calm (hk : k.Accounted) (hv : k.Vacant) (pid : Pid) :
    Calm k (serveTerminate caller pid k) := by
  unfold serveTerminate
  rw [Action.look_bind_apply]
  refine (terminate_calm hk hv _).bind fun found k₁ _ hk₁ => ?_
  have hsame := Alike.giveResult k₁ caller (if found then 0 else Service.failure)
  refine .change ?_ ?_
  · split
    · exact .giveResult k₁ caller _
    · exact .refl k₁
  · split
    · exact hk₁.congr hsame.toSameBooks
    · exact hk₁

theorem announceHandler_calm (hk : k.Accounted) (hv : k.Vacant) (c : ExceptionClass)
    (handler : Handler) : Calm k (announceHandler caller c handler k) := by
  have hmodify : ∀ (k : Kernel) (f : Descriptor → Descriptor), k.Accounted →
      (∀ d : Descriptor, d.SameEntry (f d)) →
      (∀ d : Descriptor, (f d).usedTime = d.usedTime ∧ (f d).quantumTime = d.quantumTime) →
      k.Timeless (k.modify caller f) ∧ (k.modify caller f).Accounted := fun k f hk hf htimes =>
    ⟨.modify hf htimes k caller, hk.congr (.modify hf)⟩
  unfold announceHandler
  rw [Action.look_bind_apply, Action.check_bind_apply]
  cases Word.succ ((k.processes.get caller).announced.get c.place) with
  | error cause => trivial
  | ok announced =>
    dsimp only
    rw [Action.change_bind_apply]
    obtain ⟨htime, hk₁⟩ := hmodify k
      (fun d => { d with announced := d.announced.set c.place announced }) hk
      (fun _ => ⟨rfl, rfl, rfl, rfl, rfl⟩) fun _ => ⟨rfl, rfl⟩
    refine .of_timeless htime ?_
    split
    · exact .note_bind rfl (terminate_calm hk₁ (htime.vacant hv) _).discard
    · obtain ⟨htime', hk₂⟩ := hmodify _
        (fun d => { d with handlers := d.handlers.set c.place (some handler) }) hk₁
        (fun _ => ⟨rfl, rfl, rfl, rfl, rfl⟩) fun _ => ⟨rfl, rfl⟩
      exact .change htime' hk₂

/-- Every service but the one that tells the processor time takes no time. -/
theorem serve_calm (hk : k.Sound) (hv : k.Vacant) (hh : k.current = some caller)
    (service : Service) (hbus : SparesBus service) (htime : service ≠ .usedTime) :
    Calm k (serve caller service k) := by
  have hbooks := hk.toAccounted
  cases service with
  | create stateAddress => exact serveCreate_calm hk hh stateAddress
  | terminate pid => exact serveTerminate_calm hbooks hv pid
  | signal address =>
    have hid : (SemaphoreId.user address).OffBus := hbus
    exact signal_calm hbooks hid
  | wait address =>
    have hid : (SemaphoreId.user address).OffBus := hbus
    exact (acquire_calm hbooks hh hid).discard
  | pid => exact giveResult_calm hbooks caller (·.pidAt caller)
  | usedTime => exact absurd rfl htime
  | waitClock => exact (acquire_calm hbooks hh SemaphoreId.offBus_clock).discard
  | waitDevice line unit read => exact awaitDevice_calm hbooks hh line unit read
  | parentPid =>
    exact giveResult_calm hbooks caller
      fun k => ((k.processes.get caller).parent.map k.pidAt).getD Service.failure
  | announce c handler => exact announceHandler_calm hbooks hv c handler

/-! ## Interrupts -/

theorem releaseClock_calm (hk : k.Accounted) (n : Nat) : Calm k (releaseClock n k) := by
  induction n generalizing k with
  | zero => exact .pure hk ()
  | succ n ih =>
    unfold releaseClock
    refine (wakeNext_calm hk .clock).discard.bind fun _ k₁ _ hk₁ => ?_
    rw [Action.change_bind_apply]
    have hk₂ := hk₁.congr (Alike.add k₁ .clock 1).toSameBooks
    exact .of_timeless (.add SemaphoreId.offBus_clock k₁ 1) (ih hk₂)

/-- The action is calm up to its end, where it reports a tick of the pseudo-clock. -/
def Ticks (k : Kernel) (o : Outcome Kernel Unit) : Prop :=
  o.Tells
    (fun _ k' log => k.Timeless k' ∧ k'.Accounted ∧
      ∃ before, Quiet before ∧ log = before ++ [.clockTick])
    fun _ k' log => k.Timeless k' ∧ Quiet log

theorem Calm.bind_ticks {x : Action Kernel α} {f : α → Action Kernel Unit} (hx : Calm k (x k))
    (hf : ∀ a k', k'.Accounted → Ticks k' (f a k')) : Ticks k ((x >>= f) k) := by
  refine Action.tells_bind.2 (Tells.mono hx ?_ fun _ _ _ h => h)
  rintro a k₁ log ⟨htime, hk₁, hquiet⟩
  refine Tells.mono (hf a k₁ hk₁) ?_ ?_
  · rintro _ k₂ rest ⟨htime', hk₂, before, hquiet', rfl⟩
    exact ⟨htime.trans htime', hk₂, log ++ before, hquiet.append hquiet',
      (List.append_assoc log before _).symm⟩
  · rintro _ k₂ rest ⟨htime', hquiet'⟩
    exact ⟨htime.trans htime', hquiet.append hquiet'⟩

theorem tickClock_ticks (hk : k.Accounted) : Ticks k (tickClock k) := by
  have hnote : ∀ k : Kernel, k.Accounted → Ticks k (Action.note .clockTick k) := fun k hk =>
    ⟨.refl k, hk, [], quiet_nil, rfl⟩
  have hadd : ∀ (k : Kernel) (delta : Count), k.Accounted →
      Ticks k ((Action.change (fun k : Kernel => k.add .clock delta) >>= fun _ =>
        Action.note .clockTick) k) := fun k delta hk =>
      have hsame := (Alike.add k .clock delta).toSameBooks
      (Calm.change (.add SemaphoreId.offBus_clock k delta) (hk.congr hsame)).bind_ticks
        fun _ => hnote
  unfold tickClock
  rw [Action.look_bind_apply]
  dsimp only
  split
  · exact (releaseClock_calm hk _).bind_ticks fun _ => hnote
  · refine (wakeNext_calm hk .clock).bind_ticks fun woken k₁ hk₁ => ?_
    cases woken with
    | some h => exact hadd k₁ 1 hk₁
    | none => exact hadd k₁ (-1) hk₁

/-- The running process goes back to the ready queue. -/
theorem expire_tells (hk : k.Accounted) (hh : k.current = some h) :
    ((do
      Action.change ({ · with current := none })
      Action.note (.quantumExpired (← Action.look (·.pidAt h)))
      Action.attempt (·.makeReady h) : Action Kernel Unit) k).Tells
      (fun _ k' log => k.Timeless k' ∧ k'.Accounted ∧ k'.current = none ∧
        log = [.quantumExpired (k.pidAt h)])
      fun _ _ _ => False := by
  have hat := hk.at_processor hh
  have hready : h ∉ k.ready.items := fun hmem =>
    Place.noConfusion ((hat.mem_iff (q := .ready)).1 hmem)
  simp only [Action.change_bind_apply, Action.look_bind_apply, Action.note_bind_apply,
    tells_after]
  refine Action.tells_attempt fun k₁ hk₁ => ?_
  rw [makeReady_of_not_mem (k := { k with current := none }) hready] at hk₁
  cases hk₁
  have hd : k.Leads (.expire h) _ := .expire hh
  have htime := hd.timeless hk trivial ⟨.refl k.machine, rfl, rfl, rfl, rfl⟩
    fun _ _ heq => by cases heq
  exact ⟨htime, hk.leads hd, rfl, rfl⟩

theorem handOver_calm (hk : k.Accounted) (d : Device) (status : Word) :
    Calm k (handOver d status k) := by
  unfold handOver
  rw [Action.change_bind_apply]
  refine .of_timeless (.add (SemaphoreId.offBus_device d) k 1) ?_
  have hadd := hk.congr (Alike.add k (.device d) 1).toSameBooks
  refine (wakeNext_calm hadd (.device d)).bind fun woken k₁ _ hk₁ => ?_
  cases woken with
  | some h => exact giveResult_calm hk₁ h fun _ => status
  | none =>
    have hlatch : k₁.Leads (.latch d status) _ := .latch d status
    exact .change (hlatch.timeless hk₁ trivial ⟨.refl k₁.machine, rfl, rfl, rfl, rfl⟩ nofun)
      (hk₁.leads hlatch)

theorem serveCompleted_calm (hk : k.Accounted) (d : Device) : Calm k (serveCompleted d k) := by
  have hcommand : ¬ Bus.IsRegister d.commandRegister := fun hreg =>
    Machine.ne_of_isBusRegister hreg
      (UInt32.le_trans (by decide) d.commandRegister_range.1) rfl
  unfold serveCompleted
  rw [Action.look_bind_apply]
  refine (handOver_calm hk d _).bind fun _ k₁ _ hk₁ => ?_
  have hbus := Machine.sameBus_write hcommand k₁.machine acknowledgeCommand
  exact .change (.setMachine hbus) (hk₁.congr (Alike.setMachine k₁ _).toSameBooks)

theorem nextUnit_calm (hk : k.Accounted) (line : Cause.Line) : Calm k (nextUnit line k) := by
  unfold nextUnit
  rw [Action.look_bind_apply]
  dsimp only
  split
  · exact .note_bind rfl (.pure hk _)
  · exact .pure hk _

/-- Every interrupt but that of the timer is served in no time. -/
theorem serveInterrupt_calm (hk : k.Accounted) {cause : Word}
    (hcause : InterruptSource.ofCause cause ≠ .timer) : Calm k (serveInterrupt cause k) := by
  unfold serveInterrupt
  cases hsource : InterruptSource.ofCause cause with
  | timer => exact absurd hsource hcause
  | stray => exact .note hk rfl
  | device family =>
    unfold serveDevice
    refine (nextUnit_calm hk family.line).bind fun unit k₁ _ hk₁ => ?_
    cases unit with
    | none => exact .pure hk₁ ()
    | some unit => exact serveCompleted_calm hk₁ ⟨family, unit⟩
  | terminal =>
    unfold serveTerminal
    refine (nextUnit_calm hk .terminal).bind fun unit k₁ _ hk₁ => ?_
    cases unit with
    | none => exact .pure hk₁ ()
    | some unit =>
      dsimp only
      rw [Action.look_bind_apply]
      split
      · exact serveCompleted_calm hk₁ ⟨.terminalTransmit, unit⟩
      · split
        · exact serveCompleted_calm hk₁ ⟨.terminalReceive, unit⟩
        · exact .note hk₁ rfl

/-! ## Exceptions -/

/-- No handler of a live process stores anything in a register of the bus. -/
def HandlersOffBus (k : Kernel) : Prop :=
  ∀ address, Bus.IsRegister address → k.Spares (.user address)

theorem enterHandler_calm (hk : k.Accounted) {handler : Handler}
    (hspares : ∀ i < stateWords, ¬ Bus.IsRegister (Machine.stateAddress handler.oldArea i))
    (h : Slot) (trap : ProcessorState) : Calm k (enterHandler h handler trap k) := by
  unfold enterHandler
  refine Calm.bind (.attempt fun k' hk' => ?_) fun _ k₁ _ hk₁ => ?_
  · cases hwrite : k.machine.writeState handler.oldArea trap <;> rw [hwrite] at hk' <;> cases hk'
    rw [Machine.writeState_eq_ok hwrite]
    exact ⟨.setMachine (Machine.sameBus_storeState hspares k.machine trap),
      hk.congr (Alike.setMachine k _).toSameBooks⟩
  · rw [Action.look_bind_apply]
    refine (Calm.check hk₁ _).bind fun state k₂ _ hk₂ => ?_
    exact .change (.setState k₂ h state) (hk₂.congr (Alike.setState k₂ h state).toSameBooks)

theorem raiseException_calm (hk : k.Accounted) (hv : k.Vacant) (hspares : k.HandlersOffBus)
    (hh : k.current = some h) (c : ExceptionClass) (trap : ProcessorState) :
    Calm k (raiseException h c trap k) := by
  unfold raiseException
  rw [Action.look_bind_apply]
  cases hhandler : (k.processes.get h).handler c with
  | some handler =>
    refine .note_bind rfl (enterHandler_calm hk (fun i hi haddress => ?_) h trap)
    exact hspares _ haddress h (hk.used_of_current hh) c.place handler hhandler i hi rfl
  | none => exact .note_bind rfl (terminate_calm hk hv _).discard

end Kernel

end Nucleus
