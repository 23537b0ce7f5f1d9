import Nucleus.Proofs.Kernel.Pace

/-!
# Turns

Every call of the nucleus charges the running process first, goes on in some pace, and then decides
what runs next (`Sound.call_turn`). A fault comes before that, and leaves the interval timer and the
time gathered for the next tick alone, unless it is a deadlock and nobody runs.
-/

namespace Nucleus

namespace Kernel

open Outcome

variable {k k' k₁ : Kernel} {h : Slot} {log : List Notice} {α : Type}

/-! ## Calls -/

/-- Saving the state of the running process does not matter for its charge. -/
theorem saved_eq (hh : k.current = some h) (trap : ProcessorState) :
    k.saved h trap = k.charge.modify h ({ · with state := trap }) := by
  have hcurrent : (k.modify h ({ · with state := trap })).current = some h := hh
  set e := elapsed k.machine.now k.chargedUntil k.machine.timeScale with he
  calc k.saved h trap
      = ({ k with chargedUntil := e.2 }.modify h ({ · with state := trap })).modify h
          (·.charge e.1) := by
          rw [saved, charge_eq hcurrent]
          rfl
    _ = ({ k with chargedUntil := e.2 }.modify h (·.charge e.1)).modify h
          ({ · with state := trap }) :=
          modify_comm _ h (f := ({ · with state := trap })) (g := (·.charge e.1)) fun _ => rfl
    _ = k.charge.modify h ({ · with state := trap }) := by rw [charge_eq hh]

/-- The running process has been charged and its state saved. -/
structure Enters (k k' : Kernel) : Prop where
  pace : k.charge.Pace [] k'
  tick : k.SameTick k'
  alike : k.Alike k'

namespace Enters

theorem standsStill (he : k.Enters k') : k.StandsStill k' :=
  (charge_standsStill k).trans he.pace.standsStill

theorem vacant (he : k.Enters k') (hv : k.Vacant) : k'.Vacant := he.standsStill.vacant hv

theorem tickIsDue_gatherTick (he : k.Enters k') :
    k'.gatherTick.tickIsDue = k.gatherTick.tickIsDue := by
  have hmicros : k'.gatherTick.tickMicros = k.gatherTick.tickMicros := by
    show Word.saturatingAdd _ (elapsed _ _ _).1 = Word.saturatingAdd _ (elapsed _ _ _).1
    rw [he.tick.tickMicros, he.tick.tickUntil, he.standsStill.now, he.standsStill.timeScale]
  have hconfig : k'.gatherTick.config = k.gatherTick.config := he.standsStill.config
  unfold tickIsDue
  rw [hmicros, hconfig]

theorem timeless (he : k.Enters k₁) (hk : k₁.Timeless k') (hsame : k₁.Alike k') : k.Enters k' where
  pace := he.pace.concat (.rest hk quiet_nil)
  tick := he.tick.trans hk.sameTick
  alike := he.alike.trans hsame

theorem saved (he : k.Enters k') (h : Slot) (trap : ProcessorState) :
    k.Enters (k'.saved h trap) where
  pace := (he.pace.concat (.rest (.setState k' h trap) quiet_nil)).concat .charge
  tick := (he.tick.trans (Timeless.setState k' h trap).sameTick).trans (charge_sameTick _)
  alike := he.alike.trans (.capture k' h trap)

theorem of_nobody (hh : k.current = none) : k.Enters k where
  pace := .of_timeless (timeless_of_nobody hh)
  tick := ⟨rfl, rfl, rfl⟩
  alike := .refl k

theorem of_current (hh : k.current = some h) (trap : ProcessorState) :
    k.Enters (k.saved h trap) where
  pace := saved_eq hh trap ▸ .of_timeless (.setState _ h trap)
  tick := (Timeless.setState k h trap).sameTick.trans (charge_sameTick _)
  alike := .capture k h trap

end Enters

/-- The running process is charged, something is done in some pace, and then it is decided what runs
next. A fault comes before that, nobody gets the processor, and the timer and the gathered time are
left alone, or it is a deadlock and nobody runs. -/
def Turn (k : Kernel) (o : Outcome Kernel Decision) : Prop :=
  o.Tells
    (fun decision k' log => ∃ k₁ log₁ log₂, k.charge.Pace log₁ k₁ ∧ k₁.Accounted ∧
      schedule k₁ = .ok decision k' log₂ ∧ log = log₁ ++ log₂)
    fun _ k' log => k.charge.Pace log k' ∧ (k.SameTick k' ∧ Quiet log ∨ k'.current = none)

/-- Only a deadlock stops the decision what runs next. -/
theorem of_schedule_eq_fault {cause : Fault} (h : schedule k = .fault cause k' log) :
    k' = k ∧ k.current = none ∧ Quiet log := by
  have hchoice := k.choice_schedule
  rw [h] at hchoice
  cases hchoice with
  | deadlock hcurrent => exact ⟨rfl, hcurrent, quiet_singleton rfl⟩

theorem Enters.turn {x : Action Kernel α} (he : k.Enters k₁) (hx : Paced k₁ (x k₁)) :
    Turn k ((x >>= fun _ => schedule) k₁) := by
  unfold Turn
  rw [Action.tells_bind]
  refine Tells.mono hx ?_ fun _ k' log h =>
    ⟨he.pace.append h.1, .inl ⟨he.tick.trans h.2.1, h.2.2⟩⟩
  rintro a k₂ log ⟨hp, hk₂⟩
  have hpace : k.charge.Pace log k₂ := he.pace.append hp
  cases hschedule : schedule k₂ with
  | ok decision k' rest => exact ⟨k₂, log, rest, hpace, hk₂, hschedule, rfl⟩
  | fault cause k' rest =>
    obtain ⟨rfl, hnobody, hquiet⟩ := of_schedule_eq_fault hschedule
    exact ⟨hpace.append (.single (.rest (.refl k') hquiet)), .inr hnobody⟩
  | abort cause => trivial

/-- The decision what runs next, with nothing done before. -/
theorem Enters.turn_schedule (he : k.Enters k₁) (hk : k₁.Accounted) : Turn k (schedule k₁) := by
  have hturn := he.turn (Calm.pure hk ()).paced
  rwa [Action.pure_bind_apply] at hturn

theorem schedule_turn (hk : k.Accounted) : Turn k (schedule k) := by
  cases hh : k.current with
  | none => exact (Enters.of_nobody hh).turn_schedule hk
  | some h =>
    have hcharged : k.Enters k.charge := ⟨.refl _, charge_sameTick k, .charge k⟩
    have hcurrent : k.charge.current = some h := (Alike.charge k).current.trans hh
    have hschedule : schedule k = schedule k.charge := by
      simp only [schedule, hh, hcurrent, resumeCurrent, charge_charge]
    rw [hschedule]
    exact hcharged.turn_schedule (hk.congr (Alike.charge k).toSameBooks)

/-! ## Traps -/

theorem raiseException_turn (he : k.Enters k₁) (hk : k.Accounted) (hv : k.Vacant)
    (hspares : k.HandlersOffBus) (hh : k.current = some h) (c : ExceptionClass)
    (trap : ProcessorState) : Turn k ((raiseException h c trap >>= fun _ => schedule) k₁) :=
  he.turn (raiseException_calm (hk.congr he.alike.toSameBooks) (he.vacant hv)
    (fun address haddress => (hspares address haddress).congr he.alike)
    (he.alike.current.trans hh) c trap).paced

theorem captureAndRaise_turn (he : k.Enters k₁) (hk : k.Accounted) (hv : k.Vacant)
    (hspares : k.HandlersOffBus) (hh : k.current = some h) (vector : TrapVector)
    (c : ExceptionClass) :
    Turn k ((capture vector >>= fun (h, trap) => raiseException h c trap >>= fun _ => schedule)
      k₁) := by
  rw [capture_bind_apply, he.alike.current.trans hh]
  exact raiseException_turn (he.saved h _) hk hv hspares hh c _

/-- Without a running process a trap stops at once. -/
theorem capture_turn_of_nobody (hh : k.current = none) (vector : TrapVector)
    (f : Slot × ProcessorState → Action Kernel Decision) : Turn k ((capture vector >>= f) k) := by
  rw [capture_bind_apply, hh]
  exact ⟨(Enters.of_nobody hh).pace, .inr hh⟩

theorem handleUserRequest_turn (he : k.Enters k₁) (hk : k.Accounted) (hv : k.Vacant)
    (hspares : k.HandlersOffBus) (hh : k.current = some h) (trap : ProcessorState) :
    Turn k (handleUserRequest h trap k₁) := by
  unfold handleUserRequest
  split
  · rw [Action.change_bind_apply]
    have hbus := Machine.sameBus_storeState (Machine.not_isBusRegister_oldArea .programTrap)
      k₁.machine { trap with cause := Cause.withCode trap.cause .reservedInstruction }
    exact captureAndRaise_turn (he.timeless (.setMachine hbus) (.setMachine k₁ _)) hk hv hspares hh
      .programTrap .programTrap
  · exact raiseException_turn he hk hv hspares hh .sysBreak trap

theorem handleSysBreak_turn (hk : k.Sound) (hv : k.Vacant) (hspares : k.HandlersOffBus)
    (hservice : ∀ service, k.service? = some service → SparesBus service) :
    Turn k (handleSysBreak k) := by
  have hbooks := hk.toAccounted
  unfold handleSysBreak
  cases hh : k.current with
  | none => exact capture_turn_of_nobody hh .sysBreak _
  | some h =>
    rw [capture_bind_apply, hh]
    dsimp only
    have hne : k.current ≠ none := hh ▸ Option.some_ne_none h
    have hserved := service?.eq_1 k
    generalize k.machine.loadState TrapVector.sysBreak.oldArea = trap at hserved
    rw [Action.change_bind_apply]
    have hskip : (k.saved h trap).Alike ((k.saved h trap).modify h (·.skipInstruction)) :=
      .modify (fun _ => ⟨rfl, rfl, rfl, rfl, rfl⟩) fun _ => ⟨rfl, rfl⟩
    have he := (Enters.of_current hh trap).timeless (.modify (f := (·.skipInstruction))
      (fun _ => ⟨rfl, rfl, rfl, rfl, rfl⟩) (fun _ => ⟨rfl, rfl⟩) _ h) hskip
    generalize (k.saved h trap).modify h (·.skipInstruction) = k₁ at he
    have hfail : ∀ code, Turn k
        ((Action.fail (.unexpectedException code) : Action Kernel Decision) k₁) := fun _ =>
      ⟨he.pace, .inl ⟨he.tick, quiet_nil⟩⟩
    cases hcode : trap.code? with
    | none => exact hfail _
    | some code =>
      cases code with
      | syscall =>
        dsimp only
        cases huser : trap.fromUserMode with
        | true => exact handleUserRequest_turn he hbooks hv hspares hh trap
        | false =>
          rw [if_neg Bool.false_ne_true]
          rw [if_pos ⟨hne, hcode, huser⟩] at hserved
          unfold handleRequest
          cases hof : Service.ofTrap? trap with
          | some service =>
            exact he.turn (serve_paced (hk.congr he.alike) (he.vacant hv)
              (he.alike.current.trans hh) service (hservice service (hserved.trans hof)))
          | none => exact raiseException_turn he hbooks hv hspares hh .sysBreak trap
      | breakpoint => exact raiseException_turn he hbooks hv hspares hh .sysBreak trap
      | _ => exact hfail _

theorem handleInterrupt_turn (hk : k.Accounted) : Turn k (handleInterrupt k) := by
  unfold handleInterrupt
  rw [Action.look_bind_apply, Action.change_bind_apply]
  cases hh : k.current with
  | none => exact (Enters.of_nobody hh).turn (serveInterrupt_paced hk _)
  | some h =>
    have he := Enters.of_current hh (k.machine.loadState TrapVector.interrupt.oldArea)
    exact he.turn (serveInterrupt_paced (hk.congr he.alike.toSameBooks) _)

theorem dispatch_turn (hk : k.Sound) (hv : k.Vacant) (hspares : k.HandlersOffBus)
    (vector : TrapVector)
    (hservice : vector = .sysBreak → ∀ service, k.service? = some service → SparesBus service) :
    Turn k (dispatch vector k) := by
  have hraise : ∀ (vector : TrapVector) (c : ExceptionClass), Turn k
      ((capture vector >>= fun (h, trap) => raiseException h c trap >>= fun _ => schedule) k) := by
    intro vector c
    cases hh : k.current with
    | none => exact capture_turn_of_nobody hh vector _
    | some h =>
      rw [capture_bind_apply, hh]
      exact raiseException_turn (.of_current hh _) hk.toAccounted hv hspares hh c _
  cases vector with
  | sysBreak => exact handleSysBreak_turn hk hv hspares (hservice rfl)
  | programTrap => exact hraise .programTrap .programTrap
  | tlb => exact hraise .tlb .tlb
  | interrupt => exact handleInterrupt_turn hk.toAccounted

/-- What a turn leaves has been reached in some pace. -/
theorem Turn.pace {o : Outcome Kernel Decision} (ht : Turn k o) (h : o.state? = some k') :
    k.charge.Pace o.log k' := by
  cases o with
  | ok decision s log =>
    obtain rfl := Option.some.inj h
    obtain ⟨k₁, log₁, log₂, hp, hk₁, hschedule, rfl⟩ := ht
    exact hp.append (pace_of_schedule hk₁ hschedule)
  | fault cause s log =>
    obtain rfl := Option.some.inj h
    exact ht.1
  | abort cause => cases h

/-! ## Calls -/

/-- The ticks that pass at a call. -/
def Call.ticks : Call → Kernel → Nat
  | deliver event, k => k.machine.eventTicks event
  | dispatch _, _ | schedule, _ => 0

/-- A call leaves the bus alone: it uses no register of the bus as a semaphore, and no handler
stores anything in one. -/
structure Call.OffBus (call : Call) (k : Kernel) : Prop where
  handlers : k.HandlersOffBus
  semaphores : ∀ address use, Bus.IsRegister address → call.use? k ≠ some (.user address, use)

theorem sparesBus_of_use? {service : Service}
    (h : ∀ address use, Bus.IsRegister address → service.use? ≠ some (.user address, use)) :
    SparesBus service := by
  cases service with
  | signal address => exact fun haddress => h address _ haddress rfl
  | wait address => exact fun haddress => h address _ haddress rfl
  | _ => trivial

/-- Every call that leaves a state charges the running process at a clock that only the timer has
moved, and goes on in its pace. -/
theorem Sound.call_turn {call : Call} (hk : k.Sound) (hv : k.Vacant) (hcall : call.OffBus k)
    (h : (call.run k).state? = some k') :
    ∃ machine, k.machine.TimePasses (call.ticks k) machine ∧
      Turn { k with machine } (call.run k) := by
  cases htrap : call.trap? k with
  | none =>
    rcases Call.run_of_no_trap htrap with rfl | ⟨cause, habort⟩
    · exact ⟨k.machine, (Machine.SameBus.refl k.machine).timePasses, schedule_turn hk.toAccounted⟩
    · rw [habort] at h
      cases h
  | some trap =>
    obtain ⟨vector, k₁⟩ := trap
    obtain ⟨⟨machine, rfl⟩, hrun⟩ := Call.run_eq_of_trap? htrap
    have hsame := Alike.setMachine k machine
    have htime : k.machine.TimePasses (call.ticks k) machine := by
      cases call with
      | schedule => cases htrap
      | dispatch vector =>
        obtain ⟨-, hsame⟩ := Prod.mk.inj (Option.some.inj htrap)
        have hmachine : k.machine = machine := congrArg Kernel.machine hsame
        exact hmachine ▸ (Machine.SameBus.refl k.machine).timePasses
      | deliver event =>
        unfold Call.trap? at htrap
        dsimp only at htrap
        split at htrap
        · rename_i hevent
          cases htrap
          exact Machine.timePasses_of_trap hevent
        · cases htrap
    refine ⟨machine, htime, ?_⟩
    rw [hrun]
    refine dispatch_turn (hk.congr hsame) hv
      (fun address haddress => (hcall.handlers address haddress).congr hsame) vector ?_
    rintro rfl service hservice
    apply sparesBus_of_use?
    rw [← Call.use?_of_request htrap hservice]
    exact hcall.semaphores

/-! ## The timer runs out -/

/-- The timer interrupts when it has run out. -/
theorem Call.trap?_timer (k : Kernel) :
    ∃ machine, (deliver .timer).trap? k = some (.interrupt, { k with machine }) ∧
      k.machine.TimePasses ((deliver .timer).ticks k) machine ∧
      InterruptSource.ofCause (machine.loadState TrapVector.interrupt.oldArea).cause = .timer := by
  obtain ⟨machine, htrap, hcause⟩ := k.machine.trap_timer (k.currentDescriptor.map (·.state))
  refine ⟨machine, trap?_deliver htrap, Machine.timePasses_of_trap htrap, ?_⟩
  rw [hcause]
  decide

theorem handleInterrupt_of_timer (htimer : InterruptSource.ofCause
      (k.machine.loadState TrapVector.interrupt.oldArea).cause = .timer) :
    ∃ k₁, Enters k k₁ ∧ handleInterrupt k = (serveTimer >>= fun _ => schedule) k₁ := by
  unfold handleInterrupt
  rw [Action.look_bind_apply, Action.change_bind_apply, serveInterrupt, htimer]
  cases hh : k.current with
  | none => exact ⟨k, .of_nobody hh, rfl⟩
  | some h => exact ⟨_, .of_current hh _, rfl⟩

/-- When the timer has run out, the running process is charged, the interrupt is served, and then it
is decided what runs next. -/
theorem Sound.timer_run (hk : k.Sound) : ∃ machine k₁,
    (Call.deliver .timer).trap? k = some (.interrupt, { k with machine }) ∧
    k.machine.TimePasses ((Call.deliver .timer).ticks k) machine ∧
    InterruptSource.ofCause (machine.loadState TrapVector.interrupt.oldArea).cause = .timer ∧
    Enters { k with machine } k₁ ∧
    ((∃ cause, (Call.deliver .timer).run k = .abort cause) ∨
      ∃ log k₂, k₁.TimerServed log k₂ ∧
        (Call.deliver .timer).run k = (Kernel.schedule k₂).after log) := by
  obtain ⟨machine, htrap, htime, htimer⟩ := Call.trap?_timer k
  obtain ⟨-, hrun⟩ := Call.run_eq_of_trap? htrap
  obtain ⟨k₁, henters, hhandle⟩ := handleInterrupt_of_timer (k := { k with machine }) htimer
  have hserved := serveTimer_served
    ((hk.congr (.setMachine k machine)).toAccounted.congr henters.alike.toSameBooks)
  refine ⟨machine, k₁, htrap, htime, htimer, henters, ?_⟩
  replace hrun : (Call.deliver .timer).run k = _ := hrun.trans hhandle
  rw [hrun, Action.bind_apply]
  cases hserve : serveTimer k₁ with
  | ok value k₂ log =>
    rw [hserve] at hserved
    exact .inr ⟨log, k₂, hserved.1, rfl⟩
  | fault cause k₂ log =>
    rw [hserve] at hserved
    exact hserved.elim
  | abort cause => exact .inl ⟨cause, rfl⟩

end Kernel

end Nucleus
