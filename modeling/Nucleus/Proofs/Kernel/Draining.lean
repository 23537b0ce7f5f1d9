import Nucleus.Proofs.Kernel.Terminals
import Nucleus.Proofs.Machine.Lines

/-!
# Draining a line

An interrupt on a line of devices services the first device that is due there, and no other; if none
is due it services nothing (`Sound.serves`). So however often the line interrupts while the devices
are quiet, those that were due are serviced one after the other, each once, with the statuses that
they had at the beginning, whatever the nucleus decides to run in between
(`drainLaw_of_reachable`).
-/

namespace Nucleus

/-- The line interrupts, and no device changes. -/
def Event.onLine (line : Cause.Line) : Event := .interrupt (UInt8.ofNat line)

/-- What an interrupt is served for on the line of a family. -/
def DeviceFamily.source (family : DeviceFamily) : InterruptSource :=
  if family.isTerminal then .terminal else .device family

theorem ofCause_line (family : DeviceFamily) :
    InterruptSource.ofCause (Cause.withCode (Cause.withPending 0 family.line) .interrupt) =
      family.source := by
  cases family <;> decide

/-- An interrupt changes no device and finds the state of the running process, but for its cause, in
the old area. -/
theorem Machine.trap_onLine (m : Machine) (line : Cause.Line) (running : Option ProcessorState) :
    ∃ m', m.trap (.onLine line) running = .ok (.interrupt, m') ∧ m.SameDevices m' ∧
      m'.loadState TrapVector.interrupt.oldArea =
        { running.getD .zero with
          cause := Cause.withCode (Cause.withPending 0 line) .interrupt } := by
  have hnumber : ∀ line : Cause.Line, Cause.Line.ofNumber (UInt8.ofNat line) = .ok line := by
    decide
  refine ⟨(m.enterInterrupt line { running.getD .zero with cause := 0 }).2, ?_,
    sameDevices_enterTrap m _ _ _, loadState_enterTrap _ _ _ _⟩
  unfold trap Event.onLine
  dsimp only
  rw [hnumber]
  rfl

namespace Kernel

open Outcome

variable {k k' k₁ : Kernel} {d e : Device} {line : Cause.Line} {family : DeviceFamily}
  {cause : Word} {g h : Slot} {ds es : List Device} {call : Call}

/-! ## One interrupt -/

/-- The lowest device of a family whose bit is raised is served. -/
theorem serveDevice_cases (family : DeviceFamily) (k : Kernel) :
    (∃ u, lowestRaised (k.machine.read (bitmapOf family.line)) = some u ∧
      serveDevice family k = serveCompleted ⟨family, u⟩ k) ∨
    (lowestRaised (k.machine.read (bitmapOf family.line)) = none ∧
      ∃ log, serveDevice family k = .ok () k log) := by
  unfold serveDevice nextUnit
  rw [Action.bind_apply, Action.look_bind_apply]
  cases lowestRaised (k.machine.read (bitmapOf family.line)) with
  | none => exact .inr ⟨rfl, _, rfl⟩
  | some u => exact .inl ⟨u, rfl, after_nil _⟩

/-- What is served on a line that responds is the first device that is due. -/
theorem serveInterrupt_due (hcause : InterruptSource.ofCause cause = family.source)
    (hm : k.machine.Responds family.line) :
    (∃ d rest, k.machine.due family.line = d :: rest ∧ k.completed? family.source = some d ∧
      serveInterrupt cause k = serveCompleted d k) ∨
    (k.machine.due family.line = [] ∧ k.completed? family.source = none ∧
      ∃ log, serveInterrupt cause k = .ok () k log) := by
  have hnobody : (∀ u, ¬ k.machine.read (bitmapOf family.line) &&& unitBit u ≠ 0) →
      k.machine.due family.line = [] := fun hnone => List.eq_nil_iff_forall_not_mem.2 fun d hd =>
    hnone d.unit ((Machine.raised_iff_due hm).2 ⟨d, hd, rfl⟩)
  unfold serveInterrupt
  rw [hcause]
  unfold DeviceFamily.source
  split
  · rename_i hterminal
    have hline := DeviceFamily.line_eq_terminal.2 hterminal
    rw [hline] at hm hnobody ⊢
    rcases k.serveTerminal_cases with ⟨d, hnext, hd, hserve⟩ | ⟨hblocked, hnone, hserve⟩
    · obtain ⟨rest, hrest⟩ := hnext.due
      exact .inl ⟨d, rest, hrest, hd, hserve⟩
    · refine .inr ⟨hnobody fun u hraised => ?_, hnone, hserve⟩
      obtain ⟨v, -, hhangs⟩ := hblocked u hraised
      exact hm rfl v hhangs
  · rename_i hplain
    rcases serveDevice_cases family k with ⟨u, hu, hserve⟩ | ⟨hnone, hserve⟩
    · obtain ⟨rest, hrest⟩ := Machine.due_of_lowestRaised (Bool.eq_false_of_not_eq_true hplain) hu
      refine .inl ⟨⟨family, u⟩, rest, hrest, ?_, hserve⟩
      rw [completed?, hu]
      rfl
    · refine .inr ⟨hnobody fun u hraised => ?_, ?_, hserve⟩
      · exact hraised (lowestRaised_eq_none_iff.1 hnone u)
      · rw [completed?, hnone]
        rfl

/-- What a call that interrupts on a line does to the devices. -/
inductive Services (call : Call) (line : Cause.Line) (k k' : Kernel) : Prop
  /-- The first device that is due is serviced. -/
  | first (d : Device) (rest : List Device) (machine : Machine)
      (hdue : k.machine.due line = d :: rest)
      (hcompletion : call.completion? k = some (d, k.machine.read d.statusRegister))
      (hview : k'.view (.device d) = ((k.view (.device d)).add 1).release true 1)
      (hothers : ∀ e, e ≠ d → k.Untouched (.device e) k')
      (hsame : k.machine.SameDevices machine)
      (hdevices :
        (machine.write d.commandRegister acknowledgeCommand).SameDevices k'.machine)
  /-- If none is due nothing is serviced and nothing acknowledged. -/
  | nothing (hdue : k.machine.due line = []) (hcompletion : call.completion? k = none)
      (hview : ∀ d, k'.view (.device d) = k.view (.device d))
      (hdevices : k.machine.SameDevices k'.machine)

/-- An interrupt on a line that responds services the first device that is due. -/
theorem Sound.serves (hk : k.Sound) (hm : k.machine.Responds family.line) :
    ∃ k', ((Call.deliver (.onLine family.line)).run k).state? = some k' ∧
      Services (.deliver (.onLine family.line)) family.line k k' := by
  obtain ⟨machine, htrap, hsame, hold⟩ :=
    k.machine.trap_onLine family.line (k.currentDescriptor.map (·.state))
  have htrap' := Call.trap?_deliver htrap
  obtain ⟨-, hrun⟩ := Call.run_eq_of_trap? htrap'
  obtain ⟨k₁, halike, hm₁, hview₁, hhandle⟩ := handleInterrupt_eq { k with machine }
  replace hrun := hrun.trans hhandle
  replace hview₁ : ∀ d, k₁.view (.device d) = k.view (.device d) := hview₁
  have hcause : InterruptSource.ofCause (machine.loadState TrapVector.interrupt.oldArea).cause =
      family.source := by
    rw [hold]
    exact ofCause_line family
  have hcompletion : (Call.deliver (.onLine family.line)).completion? k =
      k₁.completion? family.source := by
    rw [completion?_congr hm₁, ← hcause, Call.completion?, htrap']
    rfl
  have hk₁ : k₁.Accounted := ((hk.congr (.setMachine k machine)).congr halike).toAccounted
  have hresponds : k₁.machine.Responds family.line := hm₁ ▸ hsame.responds.2 hm
  have hdue : k₁.machine.due family.line = k.machine.due family.line := by
    rw [hm₁]
    exact hsame.due family.line
  rw [completion?] at hcompletion
  rcases serveInterrupt_due hcause hresponds with
    ⟨d, rest, hrest, hd, hserve⟩ | ⟨hnobody, hnone, log, hserve⟩
  · rw [hd, hm₁] at hcompletion
    replace hcompletion := hcompletion.trans (congrArg (fun status => some (d, status))
      (hsame.status d))
    have huse := Call.use?_eq_give_iff.2 ⟨_, hcompletion⟩
    obtain ⟨k', hs, hview, -⟩ :=
      hk.exists_transition (SemaphoreId.isOrdinary_device d) (k.spares_device d) huse
    rw [Action.bind_apply, hserve, ← Action.bind_apply] at hrun
    obtain ⟨hreads, hothers⟩ := serveCompleted_schedule hk₁ (hrun ▸ hs)
    rw [hm₁] at hreads
    refine ⟨k', hs, .first d rest machine (hdue ▸ hrest) hcompletion hview (fun e he => ?_) hsame
      (Machine.sameDevices_of_reads hreads)⟩
    exact (Untouched.of_view (hview₁ e)).trans (hothers e he)
  · rw [hnone] at hcompletion
    rw [Action.bind_apply, hserve] at hrun
    dsimp only at hrun
    obtain ⟨k', hk', hreads, hview⟩ := (schedule_devices k₁).exists_state?
    have hs : ((Call.deliver (.onLine family.line)).run k).state? = some k' := by
      rwa [hrun, state?_after]
    rw [hm₁] at hreads
    refine ⟨k', hs, .nothing (hdue ▸ hnobody) hcompletion (fun d => ?_)
      (hsame.trans (Machine.sameDevices_of_reads hreads))⟩
    exact (hview d).trans (hview₁ d)

/-! ## The results of the processes -/

/-- An interrupt on a line gives a result to the process that has waited longest for the device
that completes, and to no other. -/
theorem Sound.v0_of_onLine (hk : k.Sound)
    (hs : ((Call.deliver (.onLine line)).run k).state? = some k')
    (hg : k.processes.isUsed g = true) (hg' : k'.processes.isUsed g = true) :
    (k'.contextAt g).state.v0 =
      (k.deliveryTo ((Call.deliver (.onLine line)).completion? k) g).getD
        (k.contextAt g).state.v0 := by
  by_cases hcurrent : k.current = some g
  · have hat := hk.at_processor hcurrent
    rw [hat.deliveryTo_eq_none fun _ => Place.noConfusion, Option.getD_none]
    obtain ⟨machine, htrap, -, hold⟩ :=
      k.machine.trap_onLine line (k.currentDescriptor.map (·.state))
    obtain ⟨-, hrun⟩ := Call.run_eq_of_trap? (Call.trap?_deliver htrap)
    have hk₀ : ({ k with machine } : Kernel).Sound := hk.congr (.setMachine k machine)
    have hhandled := Kernel.dispatch_handled { k with machine } .interrupt
    rw [hrun] at hs
    generalize Kernel.dispatch .interrupt { k with machine } = o at hhandled hs
    cases hhandled with
    | nobody hv => exact absurd rfl hv
    | idle hnone => cases hcurrent.symm.trans hnone
    | @interrupt h k₁ hh cause hcause hsaved hm =>
      obtain rfl : g = h := Option.some.inj (hcurrent.symm.trans hh)
      have hstate := serveInterrupt_state (hk₀.congr hsaved.alike)
        (hsaved.alike.current.trans hh) cause hs hg'
      rw [hstate, hsaved.state, hold, currentDescriptor, hcurrent]
      rfl
    | exception hh hx => cases hx
  · rw [hk.contextAt_bystander hs hg hg' hcurrent]
    cases k.deliveryTo _ g with
    | none => rfl
    | some status => simp [ProcessorState.v0, ProcessorState.withResult]

/-! ## What has been serviced -/

/-- The completion of a device has reached its semaphore and whoever waited for it. -/
structure Supplied (d : Device) (k k' : Kernel) : Prop where
  /-- A unit has been given to the semaphore. -/
  value : k'.value (.device d) = Count.saturatingAdd (k.value (.device d)) 1
  /-- Who has waited longest waits no more. -/
  waiting : k'.waits.waiting (.device d) = (k.waits.waiting (.device d)).drop 1
  /-- It has got the status of the device, and what is latched is as it was. -/
  answered : ∀ h, (k.waits.waiting (.device d)).head? = some h →
    (k'.contextAt h).state.v0 = k.machine.read d.statusRegister ∧ k'.latched d = k.latched d
  /-- If nobody has waited the status is latched. -/
  latched : k.waits.waiting (.device d) = [] → k'.latched d = k.machine.read d.statusRegister

namespace Supplied

/-- It does not matter that the device has been passed by before. -/
theorem of_passedBy (hpassed : k.PassedBy d k₁)
    (hstatus : k₁.machine.read d.statusRegister = k.machine.read d.statusRegister)
    (h : Supplied d k₁ k') : Supplied d k k' where
  value := by rw [h.value, hpassed.value]
  waiting := by rw [h.waiting, hpassed.waiting]
  answered g hg := by
    rw [← hstatus, ← hpassed.latched]
    exact h.answered g (hpassed.waiting ▸ hg)
  latched hnobody := by
    rw [← hstatus]
    exact h.latched (hpassed.waiting.trans hnobody)

/-- A device that is passed by afterwards stays supplied if the waiter keeps its result. -/
theorem trans_passedBy (h : Supplied d k k₁) (hpassed : k₁.PassedBy d k')
    (hkept : ∀ g, (k.waits.waiting (.device d)).head? = some g →
      (k'.contextAt g).state.v0 = (k₁.contextAt g).state.v0) : Supplied d k k' where
  value := hpassed.value.trans h.value
  waiting := hpassed.waiting.trans h.waiting
  answered g hg := by
    obtain ⟨hv0, hlatched⟩ := h.answered g hg
    exact ⟨(hkept g hg).trans hv0, hpassed.latched.trans hlatched⟩
  latched hnobody := hpassed.latched.trans (h.latched hnobody)

end Supplied

/-- On a line the devices of the list have been serviced, each once, and no others. -/
structure Drained (line : Cause.Line) (ds : List Device) (k k' : Kernel) : Prop
    extends Machine.Acknowledged line ds k.machine k'.machine where
  /-- Each has completed. -/
  supplied : ∀ d ∈ ds, Supplied d k k'
  /-- Their oldest waiters can run after those that could before, in the order of the devices. -/
  runnable : k'.line = k.line ++ ds.flatMap fun d => (k.waits.waiting (.device d)).take 1
  /-- All other devices have been passed by. -/
  passed : ∀ d, d ∉ ds → k.PassedBy d k'
  /-- No other process has got a result. -/
  kept : ∀ pid g, k.pids.lookup pid = some g →
    (∀ d ∈ ds, (k.waits.waiting (.device d)).head? ≠ some g) →
    (k'.contextAt g).state.v0 = (k.contextAt g).state.v0
  /-- The same processes are alive, in the same slots. -/
  alive : ∀ pid, k'.pids.lookup pid = k.pids.lookup pid

theorem Services.isUsed (hserves : Services call line k k') :
    k'.processes.isUsed = k.processes.isUsed := by
  cases hserves with
  | first d rest machine hdue hcompletion hview => exact congrArg View.isUsed hview
  | nothing hdue hcompletion hview => exact congrArg View.isUsed (hview ⟨.disk, 0⟩)

/-- A call after which the same processes are alive keeps them in their slots. -/
theorem Sound.lookup_eq (hk : k.Sound) (hs : (call.run k).state? = some k')
    (hused : k'.processes.isUsed = k.processes.isUsed) (pid : Pid) :
    k'.pids.lookup pid = k.pids.lookup pid := by
  have hk' := hk.step (.call call hs)
  refine Option.ext fun g => ?_
  rw [hk'.indexed.lookup_eq_some_iff, hk.indexed.lookup_eq_some_iff, hused]
  refine and_congr_right fun hg => ?_
  rw [hk.pidAt_eq hs hg (hused ▸ hg)]

/-- An interrupt on a line has serviced the first device that was due. -/
theorem Services.drained (hk : k.Sound)
    (hs : ((Call.deliver (.onLine line)).run k).state? = some k')
    (hserves : Services (.deliver (.onLine line)) line k k') :
    Drained line ((k.machine.due line).take 1) k k' := by
  have hused := hserves.isUsed
  have halive := hk.lookup_eq hs hused
  have hv0 : ∀ {g}, k.processes.isUsed g = true → (k'.contextAt g).state.v0 =
      (k.deliveryTo ((Call.deliver (.onLine line)).completion? k) g).getD
        (k.contextAt g).state.v0 := fun hg => hk.v0_of_onLine hs hg (hused ▸ hg)
  cases hserves with
  | first d rest machine hdue hcompletion hview hothers hsame hdevices =>
    have hmem : d ∈ k.machine.due line := hdue ▸ List.mem_cons_self
    have hacknowledged : Machine.Acknowledged line [d] k.machine k'.machine := by
      obtain rfl := (Machine.mem_due_iff.1 hmem).1
      have hwritten := (hsame.acknowledged _).trans (machine.acknowledged_write d)
      exact hwritten.trans (hdevices.acknowledged _)
    have hdelivery : ∀ g, k.deliveryTo ((Call.deliver (.onLine line)).completion? k) g =
        if (k.waits.waiting (.device d)).head? = some g then
          some (k.machine.read d.statusRegister) else none := fun g => by
      rw [hcompletion]
      rfl
    rw [hdue]
    show Drained line [d] k k'
    constructor
    case toAcknowledged => exact hacknowledged
    case supplied =>
      intro e he
      obtain rfl := List.mem_singleton.1 he
      refine ⟨congrArg View.value hview, congrArg View.waiting hview, fun h hh => ?_,
        hk.latched_of_completion hs hcompletion⟩
      have hwaits : h ∈ k.waits.waiting (.device e) := List.mem_of_head? hh
      refine ⟨?_, hk.latched_kept hs fun _ _ => List.ne_nil_of_mem hwaits⟩
      rw [hv0 (hk.used_of_waiting _ h hwaits), hdelivery, if_pos hh, Option.getD_some]
    case runnable =>
      rw [List.flatMap_singleton]
      exact congrArg View.line hview
    case passed =>
      intro e he
      replace he : e ≠ d := fun heq => he (List.mem_singleton.2 heq)
      refine ⟨hothers e he, hk.latched_kept hs fun status hcompletes => absurd ?_ he⟩
      exact (Prod.mk.inj (Option.some.inj (hcompletes.symm.trans hcompletion))).1
    case kept =>
      intro pid g hg hother
      have hg := (hk.indexed.lookup_eq_some_iff.1 hg).1
      rw [hv0 hg, hdelivery, if_neg (hother d List.mem_cons_self), Option.getD_none]
    case alive => exact halive
  | nothing hdue hcompletion hview hdevices =>
    have hdelivery : ∀ g,
        k.deliveryTo ((Call.deliver (.onLine line)).completion? k) g = none := fun g => by
      rw [hcompletion]
      rfl
    rw [hdue]
    show Drained line [] k k'
    constructor
    case toAcknowledged => exact hdevices.acknowledged line
    case supplied => exact fun d hd => absurd hd List.not_mem_nil
    case runnable =>
      rw [List.flatMap_nil, List.append_nil]
      exact congrArg View.line (hview ⟨.disk, 0⟩)
    case passed =>
      intro d _
      refine ⟨.of_view (hview d), hk.latched_kept hs fun status hcompletes => ?_⟩
      cases hcompletion.symm.trans hcompletes
    case kept =>
      intro pid g hg hother
      rw [hv0 (hk.indexed.lookup_eq_some_iff.1 hg).1, hdelivery, Option.getD_none]
    case alive => exact halive

/-- A process waits for one device at most. -/
theorem Sound.eq_of_waits (hk : k.Sound) (hd : h ∈ k.waits.waiting (.device d))
    (he : h ∈ k.waits.waiting (.device e)) : d = e := by
  have hat := hk.at_of_mem (p := .waitList (.device d)) hd
  exact SemaphoreId.device.inj (Place.waitList.inj (hat.mem_iff.1 he)).symm

namespace Drained

theorem refl (k : Kernel) : Drained line [] k k where
  toAcknowledged := (Machine.SameDevices.refl k.machine).acknowledged line
  supplied _ hd := absurd hd List.not_mem_nil
  runnable := (List.append_nil _).symm
  passed d _ := .refl k d
  kept _ _ _ _ := rfl
  alive _ := rfl

/-- Two batches without a device in common are serviced one after the other. -/
theorem trans (h : Drained family.line ds k k₁) (h' : Drained family.line es k₁ k') (hk : k.Sound)
    (hdisjoint : ∀ d ∈ es, d ∉ ds) : Drained family.line (ds ++ es) k k' := by
  have hpassed : ∀ d ∈ es, k.PassedBy d k₁ := fun d hd => h.passed d (hdisjoint d hd)
  constructor
  case toAcknowledged => exact h.toAcknowledged.trans h'.toAcknowledged
  case supplied =>
    intro d hd
    rcases List.mem_append.1 hd with hd | hd
    · refine (h.supplied d hd).trans_passedBy (h'.passed d fun he => hdisjoint d he hd) ?_
      intro g hg
      have hwaits : g ∈ k.waits.waiting (.device d) := List.mem_of_head? hg
      have halive : k₁.pids.lookup (k.pidAt g) = some g := by
        rw [h.alive]
        exact hk.indexed.lookup_eq_some_iff.2 ⟨hk.used_of_waiting _ g hwaits, rfl⟩
      refine h'.kept _ g halive fun e he hhead => ?_
      rw [(hpassed e he).waiting] at hhead
      exact hdisjoint e he (hk.eq_of_waits hwaits (List.mem_of_head? hhead) ▸ hd)
    · exact (h'.supplied d hd).of_passedBy (hpassed d hd) (h.status (hdisjoint d hd))
  case runnable =>
    rw [h'.runnable, h.runnable, List.flatMap_append, List.append_assoc]
    congr 2
    exact List.flatMap_congr fun d hd => congrArg (List.take 1) (hpassed d hd).waiting
  case passed =>
    intro d hd
    obtain ⟨hds, hes⟩ := not_or.1 fun hor => hd (List.mem_append.2 hor)
    exact (h.passed d hds).trans (h'.passed d hes)
  case kept =>
    intro pid g hg hothers
    rw [h'.kept pid g ((h.alive pid).trans hg) fun d hd => ?_,
      h.kept pid g hg fun d hd => hothers d (List.mem_append_left es hd)]
    rw [(hpassed d hd).waiting]
    exact hothers d (List.mem_append_right ds hd)
  case alive => exact fun pid => (h'.alive pid).trans (h.alive pid)

end Drained

/-! ## Interrupt after interrupt -/

/-- The devices that are due after an interrupt are those behind the first. -/
theorem Services.due (hserves : Services call line k k') :
    k'.machine.due line = (k.machine.due line).drop 1 := by
  cases hserves with
  | first d rest machine hdue hcompletion hview hothers hsame hdevices =>
    rw [hdevices.due, Machine.due_acknowledge ((hsame.due line).trans hdue), hdue]
    rfl
  | nothing hdue hcompletion hview hdevices =>
    rw [hdevices.due, hdue]
    rfl

/-- A line that responds goes on responding. -/
theorem Services.responds (hserves : Services call line k k') (hm : k.machine.Responds line) :
    k'.machine.Responds line := by
  cases hserves with
  | first d rest machine hdue hcompletion hview hothers hsame hdevices =>
    have hmem : d ∈ machine.due line := (hsame.due line).trans hdue ▸ List.mem_cons_self
    exact hdevices.responds.2 (Machine.responds_acknowledge (hsame.responds.2 hm) hmem)
  | nothing hdue hcompletion hview hdevices => exact hdevices.responds.2 hm

/-- The first devices that are due have been serviced after as many interrupts, and the others are
still due. -/
theorem Sound.drains (hk : k.Sound) (hm : k.machine.Responds family.line) (n : Nat) :
    ∃ k', k.replay (List.replicate n (.deliver (.onLine family.line))) = some k' ∧ k'.Sound ∧
      Drained family.line ((k.machine.due family.line).take n) k k' ∧
      k'.machine.due family.line = (k.machine.due family.line).drop n ∧
      k'.machine.Responds family.line := by
  -- An interrupt takes the first device off the list; the others have kept their statuses.
  induction n generalizing k with
  | zero => exact ⟨k, rfl, hk, .refl k, rfl, hm⟩
  | succ n ih =>
    obtain ⟨k₁, hs, hserves⟩ := hk.serves hm
    obtain ⟨k', hreplay, hk', hdrained, hdue, hm'⟩ :=
      ih (hk.step (.call _ hs)) (hserves.responds hm)
    rw [hserves.due] at hdrained hdue
    refine ⟨k', (replay_cons hs).trans hreplay, hk', ?_, ?_, hm'⟩
    · have hsplit := List.take_append_drop 1 (k.machine.due family.line)
      have hnodup := hsplit.symm ▸ k.machine.nodup_due family.line
      rw [Nat.add_comm n 1, List.take_add]
      refine (hserves.drained hk hs).trans hdrained hk fun d hd hfirst => ?_
      exact (List.nodup_append.1 hnodup).2.2 d hfirst d (List.mem_of_mem_take hd) rfl
    · rw [hdue, List.drop_drop, Nat.add_comm 1 n]

/-! ## The law of the lines -/

/-- What `n` interrupts on a line do to its devices, and what one more does. -/
structure DrainLaw (line : Cause.Line) (n : Nat) (k k' : Kernel) : Prop where
  /-- The first `n` devices that were due have been serviced, each once. -/
  drained : Drained line ((k.machine.due line).take n) k k'
  /-- The others are still due. -/
  due : k'.machine.due line = (k.machine.due line).drop n
  /-- The bit of a unit is raised as long as one of its devices is due. -/
  raised : ∀ u, k'.machine.read (bitmapOf line) &&& unitBit u ≠ 0 ↔
    ∃ d ∈ (k.machine.due line).drop n, d.unit = u
  /-- After as many interrupts as devices were due all bits are lowered. -/
  cleared : (k.machine.due line).length ≤ n → k'.machine.read (bitmapOf line) &&& unitBits = 0
  /-- One interrupt more services the next device, or nothing if none is due any more. -/
  next : ∃ k'', ((Call.deliver (.onLine line)).run k').state? = some k'' ∧
    Drained line (((k.machine.due line).drop n).take 1) k' k''

/-- In every run interrupts on a line of devices service those that were due one after the other,
each once. -/
theorem drainLaw_of_reachable (hk : k.Reachable) (hlow : 3 ≤ line) (hhigh : line ≤ 7)
    (hm : k.machine.Responds line) :
    (k.machine.due line).Pairwise Device.Before ∧ ∀ n, ∃ k',
      k.replay (List.replicate n (.deliver (.onLine line))) = some k' ∧ DrainLaw line n k k' := by
  obtain ⟨family, rfl⟩ := DeviceFamily.exists_line hlow hhigh
  refine ⟨k.machine.pairwise_due _, fun n => ?_⟩
  obtain ⟨k', hreplay, hk', hdrained, hdue, hm'⟩ := hk.sound.drains hm n
  have hraised : ∀ u, k'.machine.read (bitmapOf family.line) &&& unitBit u ≠ 0 ↔
      ∃ d ∈ (k.machine.due family.line).drop n, d.unit = u := fun u =>
    hdue ▸ Machine.raised_iff_due hm'
  refine ⟨k', hreplay, hdrained, hdue, hraised, fun hlength => ?_, ?_⟩
  · refine and_unitBits_eq_zero fun u => not_not.1 fun hbit => ?_
    obtain ⟨d, hd, -⟩ := (hraised u).1 hbit
    rw [List.drop_eq_nil_of_le hlength] at hd
    exact List.not_mem_nil hd
  · obtain ⟨k'', hs, hserves⟩ := hk'.serves hm'
    exact ⟨k'', hs, hdue ▸ hserves.drained hk' hs⟩

/-- A machine on which both halves of the first terminal have completed. -/
def bothCompleted : Machine :=
  ((Machine.new.set (bitmapOf Cause.Line.terminal) 1).set
    (Device.statusRegister ⟨.terminalTransmit, 0⟩) 0x4105).set
    (Device.statusRegister ⟨.terminalReceive, 0⟩) 0x6105

/-- The root process waits for the transmitter of the first terminal when both halves complete. -/
theorem drainLaw_of_reachable_halves : ∃ k : Kernel, k.Reachable ∧
    k.waits.waiting (.device ⟨.terminalTransmit, 0⟩) = [0] ∧
    k.machine.due .terminal = [⟨.terminalTransmit, 0⟩, ⟨.terminalReceive, 0⟩] ∧
    k.machine.Responds .terminal ∧
    (k.machine.due .terminal).Pairwise Device.Before ∧ ∀ n, ∃ k',
      k.replay (List.replicate n (.deliver (.onLine .terminal))) = some k' ∧
        DrainLaw .terminal n k k' := by
  obtain ⟨k, hk, htest⟩ := exists_reachable
    (p := fun k => k.waits.waiting (.device ⟨.terminalTransmit, 0⟩) = [0])
    [.schedule, .deliver (.request 8 7 0 0 false)] (by decide +kernel)
  have hreports : ∀ u, bothCompleted.read (bitmapOf Cause.Line.terminal) &&& unitBit u ≠ 0 →
      bothCompleted.hasCompleted ⟨.terminalTransmit, u⟩ = true ∨
        bothCompleted.hasCompleted ⟨.terminalReceive, u⟩ = true := by decide +kernel
  have hresponds : bothCompleted.Responds .terminal :=
    fun _ u hhangs => hhangs.silent (hreports u hhangs.raised)
  have hdue : bothCompleted.due .terminal = [⟨.terminalTransmit, 0⟩, ⟨.terminalReceive, 0⟩] := by
    decide +kernel
  have hk' : Reachable { k with machine := bothCompleted } := hk.step (.machine bothCompleted)
  exact ⟨_, hk', of_decide_eq_true htest, hdue, hresponds,
    drainLaw_of_reachable hk' (by decide) (by decide) hresponds⟩

end Kernel

end Nucleus
