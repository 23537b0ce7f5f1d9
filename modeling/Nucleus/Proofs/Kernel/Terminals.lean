import Nucleus.Proofs.Kernel.Answers
import Nucleus.Proofs.Machine.Terminals

/-!
# Starved terminals

An interrupt on the line of the terminals looks at the lowest terminal whose bit is raised and at no
other. A half of it that has completed is serviced, and after that waits no more. If neither half
has, because the terminal reports something else, nothing is acknowledged: the bit stays raised, and
every terminal above waits for ever, however often the line interrupts. The terminals below the
lowest one that hangs are serviced one after the other (`terminalLaw_of_reachable`).
-/

namespace Nucleus.Kernel

open Outcome

variable {k k' k₁ k₂ : Kernel} {d e : Device} {u : Fin unitsPerLine} {event : Event}

/-! ## What an interrupt does to one half -/

/-- A half of a terminal has been serviced: a unit has been given to its semaphore, its status has
gone to the process that had waited longest or else is latched, and it has been acknowledged, so
that it does not wait for service any more while the others do as before. -/
structure Serviced (k : Kernel) (d : Device) (k' : Kernel) : Prop where
  value : k'.value (.device d) = Count.saturatingAdd (k.value (.device d)) 1
  waiting : k'.waits.waiting (.device d) = (k.waits.waiting (.device d)).drop 1
  line : k'.line = k.line ++ (k.waits.waiting (.device d)).take 1
  answered : ∀ h, (k.waits.waiting (.device d)).head? = some h →
    k'.pids.lookup (k.pidAt h) = some h ∧
      (k'.contextAt h).state.v0 = k.machine.read d.statusRegister
  latched : k.waits.waiting (.device d) = [] → k'.latched d = k.machine.read d.statusRegister
  ready : k'.machine.read d.statusRegister = readyStatus
  awaits : ∀ e, k'.machine.Awaits e ↔ k.machine.Awaits e ∧ e ≠ d
  hangs : ∀ u, k'.machine.Hangs u ↔ k.machine.Hangs u

/-- A device has been passed by: its semaphore and what is latched for it are as they were. -/
structure PassedBy (k : Kernel) (d : Device) (k' : Kernel) : Prop
    extends Untouched (.device d) k k' where
  latched : k'.latched d = k.latched d

theorem PassedBy.refl (k : Kernel) (d : Device) : k.PassedBy d k := ⟨.refl _ k, rfl⟩

theorem PassedBy.trans (h : k.PassedBy d k₁) (h' : k₁.PassedBy d k') : k.PassedBy d k' :=
  ⟨h.toUntouched.trans h'.toUntouched, h'.latched.trans h.latched⟩

/-- What an interrupt on the line of the terminals does. -/
inductive Attends (k k' : Kernel) : Prop
  /-- The half that comes next is serviced. -/
  | services (d : Device) (hnext : k.machine.IsNext d) (hserviced : k.Serviced d k')
      (hothers : ∀ e, e ≠ d → k.PassedBy e k')
  /-- If none can come next, nothing is serviced and nothing acknowledged. -/
  | ignores (hblocked : k.machine.Blocked) (hpassed : ∀ d, k.PassedBy d k')
      (hreads : ∀ a, a ≠ Bus.timer → k'.machine.read a = k.machine.read a)

/-! ## Serving the line -/

theorem machine_charge (k : Kernel) : k.charge.machine = k.machine := by
  unfold charge
  split
  · rfl
  · rfl

theorem read_setTimer {a : Word} (ha : a ≠ Bus.timer) (k : Kernel) (micros : Word) :
    (k.setTimer micros).machine.read a = k.machine.read a := by
  have hplain : Device.ofCommand? Bus.timer = none := Device.ofCommand?_eq_none (.inl (by decide))
  show (k.machine.write Bus.timer _).read a = _
  rw [Machine.write_of_plain hplain, Machine.read_set, if_neg ha.symm]

/-- Deciding what runs next writes to the timer only. -/
theorem schedule_reads (k : Kernel) : (schedule k).Always fun k' =>
    ∀ a, a ≠ Bus.timer → k'.machine.read a = k.machine.read a := by
  have hchoice := k.choice_schedule
  generalize schedule k = o at hchoice ⊢
  cases hchoice with
  | resume =>
    exact fun a ha => (read_setTimer ha _ _).trans (congrArg (·.read a) (machine_charge k))
  | dispatch | wait => exact fun a ha => read_setTimer ha _ _
  | halt | deadlock => exact fun _ _ => rfl

theorem schedule_devices (k : Kernel) : (schedule k).Ends
    (fun _ k' => (∀ a, a ≠ Bus.timer → k'.machine.read a = k.machine.read a) ∧
      ∀ d, k'.view (.device d) = k.view (.device d))
    (fun _ k' => (∀ a, a ≠ Bus.timer → k'.machine.read a = k.machine.read a) ∧
      ∀ d, k'.view (.device d) = k.view (.device d))
    (fun _ => False) := by
  have hreads := schedule_reads k
  have hview := fun d => schedule_view (SemaphoreId.isOrdinary_device d) k
  generalize schedule k = o at hreads hview ⊢
  cases o with
  | ok decision k' log => exact ⟨hreads, fun d => (hview d).1⟩
  | fault cause k' log => exact ⟨hreads, fun d => (hview d).1.1⟩
  | abort cause => exact hview ⟨.terminalTransmit, 0⟩

/-- Releasing a waiter of one semaphore leaves the machine and all others alone. -/
theorem wakeNext_bystanders (hk : k.Accounted) (id : SemaphoreId) :
    (wakeNext id k).Finishes fun _ k' =>
      k'.machine = k.machine ∧ ∀ other, other ≠ id → k.Untouched other k' := by
  cases hq : k.waits.waiting id with
  | nil =>
    rw [wakeNext_of_empty hq]
    exact ⟨rfl, fun other _ => .refl other k⟩
  | cons h rest =>
    refine ((wakeNext_finishes hk hq).and_always (wakeNext_sameWorld id k)).mono ?_
    rintro _ k' ⟨⟨-, hm⟩, hw⟩
    refine ⟨hw.machine, fun other hne => hm.untouched hw ?_ Place.noConfusion⟩
    exact fun heq => hne (Place.waitList.inj heq).symm

/-- A completed device is acknowledged, and the others are left alone. -/
theorem serveCompleted_bystanders (hk : k.Accounted) (d : Device) :
    (serveCompleted d k).Finishes fun _ k' =>
      k'.machine = k.machine.write d.commandRegister acknowledgeCommand ∧
        ∀ e, e ≠ d → k.Untouched (.device e) k' := by
  have hadd : (k.add (.device d) 1).Accounted := hk.congr (Alike.add k (.device d) 1).toSameBooks
  simp only [serveCompleted, handOver, Finishes, Action.ends_bind, Action.ends_look,
    Action.ends_change]
  refine (wakeNext_bystanders hadd (.device d)).ends ?_
  rintro woken k₁ ⟨hm, hothers⟩
  have hne : ∀ {e}, e ≠ d → SemaphoreId.device e ≠ .device d := fun hne heq =>
    hne (SemaphoreId.device.inj heq)
  have huntouched : ∀ e, e ≠ d → k.Untouched (.device e) k₁ := fun e he =>
    (Untouched.add (SemaphoreId.isOrdinary_device e) (hne he).symm k 1).trans (hothers _ (hne he))
  have hwritten : k₁.machine.write d.commandRegister acknowledgeCommand =
      k.machine.write d.commandRegister acknowledgeCommand :=
    congrArg (Machine.write · d.commandRegister acknowledgeCommand) hm
  cases woken with
  | some h => exact ⟨hwritten, fun e he => (huntouched e he).trans ⟨rfl, rfl⟩⟩
  | none => exact ⟨hwritten, fun e he => (huntouched e he).trans ⟨rfl, rfl⟩⟩

/-- The lowest terminal whose bit is raised is looked at: a half of it that has completed is served,
and without one nothing is done. -/
theorem serveTerminal_cases (k : Kernel) :
    (∃ d, k.machine.IsNext d ∧ k.completed? .terminal = some d ∧
      serveTerminal k = serveCompleted d k) ∨
    (k.machine.Blocked ∧ k.completed? .terminal = none ∧
      ∃ log, serveTerminal k = .ok () k log) := by
  cases hu : lowestRaised (k.machine.read (bitmapOf Cause.Line.terminal)) with
  | none =>
    have hnobody := lowestRaised_eq_none_iff.1 hu
    refine .inr ⟨fun u hraised => absurd (hnobody u) hraised, ?_, ?_⟩
    · rw [completed?, hu]
      rfl
    · unfold serveTerminal nextUnit
      rw [Action.bind_apply, Action.look_bind_apply, hu]
      exact ⟨_, rfl⟩
  | some u =>
    obtain ⟨hraised, hlowest⟩ := lowestRaised_eq_some_iff.1 hu
    replace hlowest : ∀ v < u, ¬ k.machine.Raised v := fun v hv => not_not_intro (hlowest v hv)
    have hserve : serveTerminal k =
        if k.machine.hasCompleted ⟨.terminalTransmit, u⟩ then
          serveCompleted ⟨.terminalTransmit, u⟩ k
        else if k.machine.hasCompleted ⟨.terminalReceive, u⟩ then
          serveCompleted ⟨.terminalReceive, u⟩ k
        else Action.note (.nothingCompleted u) k := by
      unfold serveTerminal nextUnit
      rw [Action.bind_apply, Action.look_bind_apply, hu]
      show ((Action.look machine >>= _ : Action Kernel Unit) k).after [] = _
      rw [after_nil, Action.look_bind_apply]
      split
      · rfl
      · split
        · rfl
        · rfl
    rw [hserve, completed?, hu, Option.bind_some]
    by_cases htransmit : k.machine.hasCompleted ⟨.terminalTransmit, u⟩ = true
    · rw [if_pos htransmit, if_pos htransmit]
      exact .inl ⟨⟨.terminalTransmit, u⟩,
        ⟨⟨rfl, hraised, htransmit⟩, hlowest, DeviceFamily.noConfusion⟩, rfl, rfl⟩
    · rw [if_neg htransmit, if_neg htransmit]
      by_cases hreceive : k.machine.hasCompleted ⟨.terminalReceive, u⟩ = true
      · rw [if_pos hreceive, if_pos hreceive]
        have hfirst := Bool.eq_false_of_not_eq_true htransmit
        exact .inl ⟨⟨.terminalReceive, u⟩, ⟨⟨rfl, hraised, hreceive⟩, hlowest, fun _ => hfirst⟩,
          rfl, rfl⟩
      · rw [if_neg hreceive, if_neg hreceive]
        refine .inr ⟨fun v hv => ⟨u, ?_, hraised, ?_⟩, rfl, _, rfl⟩
        · exact Nat.le_of_not_lt fun hlt => hlowest v hlt hv
        · exact not_or.2 ⟨htransmit, hreceive⟩

/-! ## One interrupt -/

theorem ofCause_terminal :
    InterruptSource.ofCause (Cause.withCode (Cause.withPending 0 .terminal) .interrupt) =
      .terminal := by decide

/-- The state of the running process is saved before an interrupt is served. -/
theorem handleInterrupt_eq (k : Kernel) :
    ∃ k₁, k.Alike k₁ ∧ k₁.machine = k.machine ∧
      (∀ d, k₁.view (.device d) = k.view (.device d)) ∧
      handleInterrupt k =
        (serveInterrupt (k.machine.loadState TrapVector.interrupt.oldArea).cause >>=
          fun _ => schedule) k₁ := by
  unfold handleInterrupt
  rw [Action.look_bind_apply, Action.change_bind_apply]
  cases hh : k.current with
  | none => exact ⟨k, .refl k, rfl, fun _ => rfl, rfl⟩
  | some h =>
    exact ⟨k.saved h _, .capture k h _, machine_charge _, fun d => view_saved k h _ _, rfl⟩

theorem handleInterrupt_of_terminal
    (hline : InterruptSource.ofCause (k.machine.loadState TrapVector.interrupt.oldArea).cause =
      .terminal) :
    ∃ k₁, k.Alike k₁ ∧ k₁.machine = k.machine ∧ (∀ d, k.Untouched (.device d) k₁) ∧
      handleInterrupt k = (serveTerminal >>= fun _ => schedule) k₁ := by
  obtain ⟨k₁, hsame, hm, hview, hrun⟩ := handleInterrupt_eq k
  rw [serveInterrupt, hline] at hrun
  exact ⟨k₁, hsame, hm, fun d => .of_view (hview d), hrun⟩

/-- What serving a half leaves after it has been decided what runs next. -/
theorem serveCompleted_schedule (hk : k.Accounted)
    (hs : ((serveCompleted d >>= fun _ => schedule) k).state? = some k') :
    (∀ a, a ≠ Bus.timer →
      k'.machine.read a = (k.machine.write d.commandRegister acknowledgeCommand).read a) ∧
    ∀ e, e ≠ d → k.Untouched (.device e) k' := by
  obtain ⟨_, k₁, log, hserve, hm, hothers⟩ := (serveCompleted_bystanders hk d).exists
  rw [Action.bind_apply, hserve] at hs
  dsimp only at hs
  rw [state?_after] at hs
  obtain ⟨hreads, hview⟩ := (schedule_devices k₁).of_state? hs
  exact ⟨fun a ha => hm ▸ hreads a ha, fun e he => (hothers e he).trans (.of_view (hview e))⟩

/-- A half that comes next is serviced. -/
theorem Sound.serviced (hk : k.Sound) (hnext : k.machine.IsNext d)
    (hs : ((Call.dispatch .interrupt).run k).state? = some k')
    (hcompletion : (Call.dispatch .interrupt).completion? k =
      some (d, k.machine.read d.statusRegister))
    (hview : k'.view (.device d) = ((k.view (.device d)).add 1).release true 1)
    (hreads : ∀ a, a ≠ Bus.timer →
      k'.machine.read a = (k.machine.write d.commandRegister acknowledgeCommand).read a) :
    k.Serviced d k' where
  value := congrArg View.value hview
  waiting := congrArg View.waiting hview
  line := congrArg View.line hview
  answered h hh := by
    obtain ⟨rest, hq⟩ := List.head?_eq_some_iff.1 hh
    obtain ⟨hlookup, hv0, -⟩ := hk.delivered hs hcompletion hview hq
    exact ⟨hlookup, hv0⟩
  latched := hk.latched_of_completion hs hcompletion
  ready := by
    rw [(Machine.sameDevices_of_reads hreads).status, Machine.status_acknowledge, if_pos rfl]
  awaits e := by
    rw [(Machine.sameDevices_of_reads hreads).awaits, Machine.awaits_acknowledge hnext.toAwaits]
  hangs u := by
    rw [(Machine.sameDevices_of_reads hreads).hangs, Machine.hangs_acknowledge hnext.toAwaits]

/-- An interrupt on the line of the terminals services the half that comes next, or nothing if the
line is blocked. -/
theorem Sound.attends (hk : k.Sound)
    (hline : InterruptSource.ofCause (k.machine.loadState TrapVector.interrupt.oldArea).cause =
      .terminal) :
    ∃ k', ((Call.dispatch .interrupt).run k).state? = some k' ∧ k.Attends k' := by
  obtain ⟨k₁, hsame, hm, huntouched, hrun⟩ := handleInterrupt_of_terminal hline
  replace hrun : (Call.dispatch .interrupt).run k = _ := hrun
  have hcompletion : (Call.dispatch .interrupt).completion? k = k₁.completion? .terminal := by
    rw [completion?_congr hm, ← hline]
    rfl
  rw [completion?] at hcompletion
  rcases serveTerminal_cases k₁ with ⟨d, hnext, hd, hserve⟩ | ⟨hblocked, hnone, log, hserve⟩
  · rw [hd] at hcompletion
    rw [hm] at hnext
    rw [Action.bind_apply, hserve, ← Action.bind_apply] at hrun
    have huse := Call.use?_eq_give_iff.2 ⟨_, hcompletion⟩
    obtain ⟨k', hs, hview, -⟩ :=
      hk.exists_transition (SemaphoreId.isOrdinary_device d) (k.spares_device d) huse
    obtain ⟨hreads, hothers⟩ := serveCompleted_schedule (hk.congr hsame).toAccounted (hrun ▸ hs)
    rw [hm] at hcompletion hreads
    refine ⟨k', hs, .services d hnext (hk.serviced hnext hs hcompletion hview hreads) ?_⟩
    intro e he
    refine ⟨(huntouched e).trans (hothers e he), hk.latched_eq hs fun hgive => he ?_⟩
    exact SemaphoreId.device.inj (Prod.mk.inj (Option.some.inj (hgive.symm.trans huse))).1
  · rw [hnone] at hcompletion
    rw [hm] at hblocked
    rw [Action.bind_apply, hserve] at hrun
    dsimp only at hrun
    obtain ⟨k', hk', hreads, hkept⟩ := (schedule_devices k₁).exists_state?
    have hs : ((Call.dispatch .interrupt).run k).state? = some k' := by rwa [hrun, state?_after]
    refine ⟨k', hs, .ignores hblocked (fun d => ⟨(huntouched d).trans (.of_view (hkept d)), ?_⟩) ?_⟩
    · refine hk.latched_eq hs fun hgive => ?_
      obtain ⟨status, heq⟩ := Call.use?_eq_give_iff.1 hgive
      cases hcompletion.symm.trans heq
    · rwa [hm] at hreads

/-! ## Steps -/

/-- A half that is serviced is the one that comes next, and the only one. -/
theorem Attends.isNext (ha : k.Attends k') (hd : k.machine.Awaits d) (hs : k.Serviced d k') :
    k.machine.IsNext d ∧ ∀ e, e ≠ d → k.PassedBy e k' := by
  have hgone : ¬ k'.machine.Awaits d := fun h => ((hs.awaits d).1 h).2 rfl
  cases ha with
  | services e hnext hserviced hothers =>
    have heq : d = e := by
      by_contra hne
      exact hgone ((hserviced.awaits d).2 ⟨hd, hne⟩)
    exact heq ▸ ⟨hnext, hothers⟩
  | ignores hblocked hpassed hreads =>
    exact absurd (((Machine.sameDevices_of_reads hreads).awaits d).2 hd) hgone

/-- A half that waits behind a terminal that hangs goes on waiting there. -/
theorem Attends.starves (ha : k.Attends k') (hd : k.machine.Awaits d) (hu : u < d.unit)
    (hhangs : k.machine.Hangs u) :
    k.PassedBy d k' ∧ k'.machine.Awaits d ∧ k'.machine.Hangs u := by
  cases ha with
  | services e hnext hserviced hothers =>
    have hne : d ≠ e := by
      rintro rfl
      exact hnext.lowest u hu hhangs.raised
    exact ⟨hothers d hne, (hserviced.awaits d).2 ⟨hd, hne⟩, (hserviced.hangs u).2 hhangs⟩
  | ignores hblocked hpassed hreads =>
    have hsame := Machine.sameDevices_of_reads hreads
    exact ⟨hpassed d, (hsame.awaits d).2 hd, (hsame.hangs u).2 hhangs⟩

/-- If nothing hangs before a half that waits, it is serviced, or another one is that then waits no
more. -/
theorem Attends.advances (ha : k.Attends k') (hd : k.machine.Awaits d)
    (hfree : ∀ u < d.unit, ¬ k.machine.Hangs u) :
    k.Serviced d k' ∨ ∃ e, k.machine.Awaits e ∧ k'.machine.Awaits d ∧
      (∀ u < d.unit, ¬ k'.machine.Hangs u) ∧
      ∀ f, k'.machine.Awaits f → k.machine.Awaits f ∧ f ≠ e := by
  cases ha with
  | services e hnext hserviced hothers =>
    by_cases heq : d = e
    · exact .inl (heq ▸ hserviced)
    · exact .inr ⟨e, hnext.toAwaits, (hserviced.awaits d).2 ⟨hd, heq⟩,
        fun u hu => mt (hserviced.hangs u).1 (hfree u hu), fun f => (hserviced.awaits f).1⟩
  | ignores hblocked hpassed hreads =>
    obtain ⟨u, hu, hhangs⟩ := hblocked.exists_hangs hd
    exact absurd hhangs (hfree u hu)

/-! ## Interrupt after interrupt -/

/-- An event interrupts: `k₁` is the kernel that handles the interrupt, `k'` what it leaves. -/
structure Interrupts (event : Event) (k k₁ k' : Kernel) : Prop where
  trap : (Call.deliver event).trap? k = some (.interrupt, k₁)
  run : ((Call.deliver event).run k).state? = some k'

/-- Every event that raises the line of the terminals is attended to. -/
theorem Sound.interrupts (hk : k.Sound) (hline : event.RaisesTerminals)
    (hrange : ¬ event.OutOfRange) :
    ∃ machine k', k.machine.trap event (k.currentDescriptor.map (·.state)) =
        .ok (.interrupt, machine) ∧
      Interrupts event k { k with machine } k' ∧ k'.Sound ∧ Attends { k with machine } k' := by
  obtain ⟨machine, htrap, hcause⟩ := Machine.trap_terminals hline hrange k.machine
    (k.currentDescriptor.map (·.state))
  have htrap' := Call.trap?_deliver htrap
  obtain ⟨-, hrun⟩ := Call.run_eq_of_trap? htrap'
  obtain ⟨k', hs, ha⟩ := (hk.congr (.setMachine k machine)).attends (hcause ▸ ofCause_terminal)
  replace hs : ((Call.deliver event).run k).state? = some k' := hrun ▸ hs
  exact ⟨machine, k', htrap, ⟨htrap', hs⟩, hk.step (.call _ hs), ha⟩

/-- The line of the terminals interrupts while the devices are as they were. -/
theorem Sound.interrupts_again (hk : k.Sound) :
    ∃ machine k', k.machine.SameDevices machine ∧
      Interrupts (.interrupt 7) k { k with machine } k' ∧ k'.Sound ∧
      Attends { k with machine } k' := by
  have hline : Event.RaisesTerminals (.interrupt 7) := rfl
  obtain ⟨machine, k', htrap, hinterrupts, hk', ha⟩ :=
    hk.interrupts hline (show ¬ (23 : UInt8) < 7 by decide)
  exact ⟨machine, k', Machine.sameDevices_of_interrupt htrap, hinterrupts, hk', ha⟩

/-- The state after the line of the terminals has interrupted `n` times more. -/
def nudged (n : Nat) (k : Kernel) : Option Kernel :=
  k.replay (List.replicate n (.deliver (.interrupt 7)))

theorem replay_cons {call : Call} {calls : List Call} (hs : (call.run k).state? = some k') :
    k.replay (call :: calls) = k'.replay calls := by
  unfold replay
  rw [List.foldlM_cons, hs]
  rfl

theorem nudged_succ {n : Nat} (hs : Interrupts (.interrupt 7) k k₁ k') :
    k.nudged (n + 1) = k'.nudged n := by
  unfold nudged
  rw [List.replicate_succ, replay_cons hs.run]

/-- However often the line interrupts, a half that waits behind a terminal that hangs is not
serviced. -/
theorem Sound.starved (hk : k.Sound) (hd : k.machine.Awaits d) (hu : u < d.unit)
    (hhangs : k.machine.Hangs u) (n : Nat) :
    ∃ k', k.nudged n = some k' ∧ k.PassedBy d k' ∧ k'.machine.Awaits d := by
  -- What each interrupt keeps is that the terminal before the half still hangs.
  induction n generalizing k with
  | zero => exact ⟨k, rfl, .refl k d, hd⟩
  | succ n ih =>
    obtain ⟨machine, k₁, hsame, hinterrupts, hk₁, ha⟩ := hk.interrupts_again
    obtain ⟨hpassed, hd₁, hhangs₁⟩ := ha.starves ((hsame.awaits d).2 hd) hu
      ((hsame.hangs u).2 hhangs)
    obtain ⟨k', hk', hpassed', hd'⟩ := ih hk₁ hd₁ hhangs₁
    replace hpassed : k.PassedBy d k₁ := ⟨⟨hpassed.value, hpassed.waiting⟩, hpassed.latched⟩
    exact ⟨k', (nudged_succ hinterrupts).trans hk', hpassed.trans hpassed', hd'⟩

/-- If nothing hangs before a half that waits, it is serviced after the line has interrupted once
for each of those that wait, at most. -/
theorem Sound.reached {waiting : List Device} (hk : k.Sound)
    (hall : ∀ e, k.machine.Awaits e → e ∈ waiting) (hd : k.machine.Awaits d)
    (hfree : ∀ u < d.unit, ¬ k.machine.Hangs u) :
    ∃ n < waiting.length, ∃ k₁ k₂ k₃, k.nudged n = some k₁ ∧
      Interrupts (.interrupt 7) k₁ k₂ k₃ ∧ k₂.Serviced d k₃ := by
  -- Each interrupt takes one half off the list, and none comes on, since the devices are quiet.
  induction hlength : waiting.length generalizing k waiting with
  | zero =>
    have hmem := hall d hd
    rw [List.eq_nil_of_length_eq_zero hlength] at hmem
    exact absurd hmem List.not_mem_nil
  | succ m ih =>
    obtain ⟨machine, k', hsame, hinterrupts, hk', ha⟩ := hk.interrupts_again
    rcases ha.advances ((hsame.awaits d).2 hd) (fun u hu => mt (hsame.hangs u).1 (hfree u hu)) with
      hserviced | ⟨e, he, hd', hfree', hleft⟩
    · exact ⟨0, Nat.succ_pos m, k, _, k', rfl, hinterrupts, hserviced⟩
    · have hmem : e ∈ waiting := hall e ((hsame.awaits e).1 he)
      have hall' : ∀ f, k'.machine.Awaits f → f ∈ waiting.erase e := fun f hf => by
        obtain ⟨hawaits, hne⟩ := hleft f hf
        exact (List.mem_erase_of_ne hne).2 (hall f ((hsame.awaits f).1 hawaits))
      obtain ⟨n, hn, k₁, k₂, k₃, hnudged, hlast⟩ := ih hk' hall' hd' hfree'
        (by rw [List.length_erase_of_mem hmem, hlength, Nat.add_sub_cancel])
      exact ⟨n + 1, Nat.succ_lt_succ hn, k₁, k₂, k₃, (nudged_succ hinterrupts).trans hnudged, hlast⟩

/-! ## The law of the line -/

/-- What an interrupt on the line of the terminals does for those that wait for service. `k` is the
kernel that handles it, `k'` what it leaves. -/
structure TerminalLaw (k k' : Kernel) : Prop where
  /-- A half that waits is serviced exactly if one waits before which no terminal hangs. -/
  serviced : (∃ d, k.machine.Awaits d ∧ k.Serviced d k') ↔
    ∃ d, k.machine.Awaits d ∧ ∀ u < d.unit, ¬ k.machine.Hangs u
  /-- It is the only one, and nobody who waits comes before it. -/
  single : ∀ d, k.machine.Awaits d → k.Serviced d k' →
    (∀ e, k.machine.Awaits e →
      d.unit < e.unit ∨ d.unit = e.unit ∧ (d.family = .terminalTransmit ∨ d = e)) ∧
    ∀ e, e ≠ d → k.PassedBy e k'
  /-- If a terminal hangs before each of those that wait, nothing happens to a device. -/
  ignored : (∀ d, k.machine.Awaits d → ∃ u < d.unit, k.machine.Hangs u) →
    (∀ d, k.PassedBy d k') ∧ ∀ a, a ≠ Bus.timer → k'.machine.read a = k.machine.read a
  /-- Who waits behind a terminal that hangs waits however often the line interrupts. -/
  starves : ∀ d, k.machine.Awaits d → (∃ u < d.unit, k.machine.Hangs u) →
    ∀ n, ∃ k'', k'.nudged n = some k'' ∧ k.PassedBy d k'' ∧ k''.machine.Awaits d
  /-- Anyone else is serviced within sixteen interrupts. -/
  reached : ∀ d, k.machine.Awaits d → (∀ u < d.unit, ¬ k.machine.Hangs u) →
    k.Serviced d k' ∨ ∃ n < 15, ∃ k₁ k₂ k₃, k'.nudged n = some k₁ ∧
      Interrupts (.interrupt 7) k₁ k₂ k₃ ∧ k₂.Serviced d k₃

theorem Attends.ignored (ha : k.Attends k')
    (hhangs : ∀ d, k.machine.Awaits d → ∃ u < d.unit, k.machine.Hangs u) :
    (∀ d, k.PassedBy d k') ∧ ∀ a, a ≠ Bus.timer → k'.machine.read a = k.machine.read a := by
  cases ha with
  | services d hnext hserviced hothers =>
    obtain ⟨u, hu, hhangs⟩ := hhangs d hnext.toAwaits
    exact absurd hhangs.raised (hnext.lowest u hu)
  | ignores hblocked hpassed hreads => exact ⟨hpassed, hreads⟩

theorem Attends.serviced_iff (ha : k.Attends k') :
    (∃ d, k.machine.Awaits d ∧ k.Serviced d k') ↔
      ∃ d, k.machine.Awaits d ∧ ∀ u < d.unit, ¬ k.machine.Hangs u := by
  constructor
  · rintro ⟨d, hd, hs⟩
    exact ⟨d, hd, fun u hu hhangs => (ha.isNext hd hs).1.lowest u hu hhangs.raised⟩
  · rintro ⟨d, hd, hfree⟩
    cases ha with
    | services e hnext hserviced hothers => exact ⟨e, hnext.toAwaits, hserviced⟩
    | ignores hblocked hpassed hreads =>
      obtain ⟨u, hu, hhangs⟩ := hblocked.exists_hangs hd
      exact absurd hhangs (hfree u hu)

/-- The halves of the terminals. -/
def halves : List Device := Device.all.filter (·.family.isTerminal)

theorem Attends.reached (ha : k.Attends k') (hk' : k'.Sound) (hd : k.machine.Awaits d)
    (hfree : ∀ u < d.unit, ¬ k.machine.Hangs u) :
    k.Serviced d k' ∨ ∃ n < 15, ∃ k₁ k₂ k₃, k'.nudged n = some k₁ ∧
      Interrupts (.interrupt 7) k₁ k₂ k₃ ∧ k₂.Serviced d k₃ := by
  refine (ha.advances hd hfree).imp_right ?_
  rintro ⟨e, he, hd', hfree', hleft⟩
  have hmem : ∀ {f}, k.machine.Awaits f → f ∈ halves := fun hf =>
    List.mem_filter.2 ⟨Device.mem_all _, hf.terminal⟩
  have hlength : (halves.erase e).length = 15 := by
    rw [List.length_erase_of_mem (hmem he)]
    rfl
  have hall : ∀ f, k'.machine.Awaits f → f ∈ halves.erase e := fun f hf =>
    (List.mem_erase_of_ne (hleft f hf).2).2 (hmem (hleft f hf).1)
  obtain ⟨n, hn, hreached⟩ := hk'.reached hall hd' hfree'
  exact ⟨n, hlength ▸ hn, hreached⟩

/-- In every run an event that raises the line of the terminals is attended to: a half that waits is
starved exactly if a terminal before it hangs. -/
theorem terminalLaw_of_reachable (hk : k.Reachable) (hline : event.RaisesTerminals)
    (hrange : ¬ event.OutOfRange) : ∃ k₁ k', Interrupts event k k₁ k' ∧ TerminalLaw k₁ k' := by
  obtain ⟨machine, k', -, hinterrupts, hk', ha⟩ := hk.sound.interrupts hline hrange
  refine ⟨_, k', hinterrupts, ha.serviced_iff, fun d hd hs => ?_, ha.ignored, ?_,
    fun d hd hfree => ha.reached hk' hd hfree⟩
  · obtain ⟨hnext, hothers⟩ := ha.isNext hd hs
    exact ⟨fun e he => hnext.before he, hothers⟩
  · rintro d hd ⟨u, hu, hhangs⟩ n
    obtain ⟨hpassed, hd', hhangs'⟩ := ha.starves hd hu hhangs
    obtain ⟨k'', hnudged, hpassed', hd''⟩ := hk'.starved hd' hu hhangs' n
    exact ⟨k'', hnudged, hpassed.trans hpassed', hd''⟩

/-- Both halves of a terminal have completed, and its transmitter is serviced first. -/
theorem terminalLaw_of_reachable_both : ∃ k k₁ k' : Kernel, k.Reachable ∧
    Interrupts (.terminal 0 (some 0x4105) (some 0x6105)) k k₁ k' ∧ TerminalLaw k₁ k' ∧
    k₁.machine.Awaits ⟨.terminalReceive, 0⟩ ∧ k₁.machine.Awaits ⟨.terminalTransmit, 0⟩ ∧
    ∃ d, k₁.Serviced d k' := by
  obtain ⟨k, hk, htest⟩ := exists_reachable
    (p := fun k => ((Call.deliver (.terminal 0 (some 0x4105) (some 0x6105))).trap? k).any
      fun trap => trap.2.machine.read (bitmapOf Cause.Line.terminal) &&& unitBit 0 ≠ 0 ∧
        trap.2.machine.hasCompleted ⟨.terminalReceive, 0⟩ = true ∧
        trap.2.machine.hasCompleted ⟨.terminalTransmit, 0⟩ = true)
    [.schedule] (by decide +kernel)
  have hline : Event.RaisesTerminals (.terminal 0 (some 0x4105) (some 0x6105)) := trivial
  obtain ⟨k₁, k', hinterrupts, hlaw⟩ :=
    terminalLaw_of_reachable hk hline (show ¬ (31 : UInt8) < 0 by decide)
  rw [hinterrupts.trap, Option.any_some] at htest
  obtain ⟨hraised, hreceive, htransmit⟩ := of_decide_eq_true htest
  have hawaits : k₁.machine.Awaits ⟨.terminalTransmit, 0⟩ := ⟨rfl, hraised, htransmit⟩
  obtain ⟨d, -, hserviced⟩ :=
    hlaw.serviced.2 ⟨_, hawaits, fun u hu => absurd hu (Fin.not_lt_zero u)⟩
  exact ⟨k, k₁, k', hk, hinterrupts, hlaw, ⟨rfl, hraised, hreceive⟩, hawaits, d, hserviced⟩

/-- Terminal 0 reports a failed transmission, and from then on the transmitter of terminal 1 waits
for service without getting it. -/
theorem terminal_starved : ∃ k k₁ k' : Kernel, k.Reachable ∧
    Interrupts (.terminal 1 (some 0x4105) none) k k₁ k' ∧
    k₁.machine.Awaits ⟨.terminalTransmit, 1⟩ ∧
    ¬ ∃ d, k₁.machine.Awaits d ∧ k₁.Serviced d k' := by
  obtain ⟨k, hk, htest⟩ := exists_reachable
    (p := fun k =>
      (((Call.deliver (.terminal 1 (some 0x4105) none)).trap? k).any fun trap =>
        trap.2.machine.read (bitmapOf Cause.Line.terminal) &&& unitBit 1 ≠ 0 ∧
          trap.2.machine.hasCompleted ⟨.terminalTransmit, 1⟩ = true ∧ trap.2.values = .zero) &&
      ((Call.deliver (.terminal 1 (some 0x4105) none)).run k).state?.any (·.values = .zero))
    [.schedule, .deliver (.terminal 0 (some 4) none)] (by decide +kernel)
  have hline : Event.RaisesTerminals (.terminal 1 (some 0x4105) none) := trivial
  obtain ⟨machine, k', -, hinterrupts, -, -⟩ :=
    hk.sound.interrupts hline (show ¬ (31 : UInt8) < 1 by decide)
  rw [hinterrupts.trap, hinterrupts.run, Option.any_some, Option.any_some, Bool.and_eq_true,
    decide_eq_true_iff, decide_eq_true_iff] at htest
  obtain ⟨⟨hraised, hcompleted, hbefore⟩, hafter⟩ := htest
  replace hbefore : k.values = .zero := hbefore
  refine ⟨k, _, k', hk, hinterrupts, ⟨rfl, hraised, hcompleted⟩, ?_⟩
  rintro ⟨d, -, hserviced⟩
  have hvalue := hserviced.value
  simp only [value, SemaphoreValues.value, hbefore, hafter, SemaphoreValues.zero,
    Table.get_fill] at hvalue
  exact absurd hvalue (by decide)

end Nucleus.Kernel
