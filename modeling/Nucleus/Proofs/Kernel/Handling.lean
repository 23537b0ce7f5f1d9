import Nucleus.Proofs.Kernel.Calls
import Nucleus.Proofs.Kernel.Courses
import Nucleus.Proofs.Kernel.Survivors

/-!
# What a call does

`dispatch_handled` says what the handling of a trap comes to once the interrupted state is saved: an
interrupt, a service, an exception or nothing. After that it is decided what runs next
(`Kernel.Decided`). So every call follows a course of deeds, the last of which may give the
processor to another process (`Sound.call_ended`).
-/

namespace Nucleus.Kernel

open Outcome

variable {k k' k₁ : Kernel} {h g : Slot} {α : Type} {allowed allowed' : Deed → Prop}
  {ms : List Move}

/-! ## Deciding what runs next -/

/-- The only process that is touched is the running one, which is charged. -/
def ByCharge (h : Slot) : Deed → Prop
  | .world => True
  | .charge g _ => g = h
  | .latch _ _ | .save _ _ | .result _ _ | .announce _ _ _ | .block _ _ | .wake _ _ | .expire _
  | .dispatch _ | .enroll _ _ | .retire _ => False

/-- What is decided, and the move that this is. -/
inductive Decided (k : Kernel) : Decision → List Move → Kernel → Prop
  /-- The running process goes on and is charged. -/
  | resumed {h : Slot} {k' : Kernel} (hh : k.current = some h) (hc : Course (ByCharge h) k [] k')
    (hh' : k'.current = some h) :
    Decided k (.resume (k'.pidAt h) (k'.contextAt h).state) [] k'
  /-- The first ready process gets the processor. -/
  | dispatched {h : Slot} {k₁ k' : Kernel} {ms : List Move} (hd : k.Leads (.dispatch h) k₁)
    (hk : k₁.SameProcesses k') (hms : ms = [⟨k.pidAt h, some .processor⟩]) :
    Decided k (.resume (k'.pidAt h) (k'.contextAt h).state) ms k'
  /-- Nobody can run. -/
  | waited {decision : Decision} {k' : Kernel} (hcurrent : k.current = none)
    (hk : k.SameProcesses k') (hd : decision = .idle ∨ decision = .halt) : Decided k decision [] k'

theorem resumeCurrent_decided (hh : k.current = some h) :
    (k.resumeCurrent h).Tells (fun decision k' log => k.Decided decision (moves log) k')
      fun _ _ _ => False := by
  have hcharge : Course (ByCharge h) k [] k.charge := charge_course hh trivial fun _ => rfl
  have hgather : Course (ByCharge h) k.charge [] k.charge.gatherTick :=
    gatherTick_course trivial k.charge
  have hc := hcharge.append hgather
  have hcurrent : k.charge.gatherTick.current = some h := (Alike.charge k).current.trans hh
  unfold resumeCurrent
  generalize k.charge.gatherTick = k₁ at hc hcurrent
  dsimp only
  exact .resumed hh (hc.append (setTimer_course trivial k₁ _)) hcurrent

theorem dispatchNext_decided {rest : Queue Slot} (hcurrent : k.current = none)
    (hready : k.ready.items = h :: rest.items) :
    (k.dispatchNext h rest).Tells (fun decision k' log => k.Decided decision (moves log) k')
      fun _ _ _ => False := by
  have hpid : ({ k with ready := rest, current := some h }.modify h
      ({ · with quantumTime := 0 })).pidAt h = k.pidAt h := by
    simp [pidAt, modify]
  have hms := congrArg (fun pid => [Move.mk pid (some .processor)]) hpid
  let k₁ := { k with ready := rest, current := some h, chargedUntil := k.machine.now }.gatherTick
  let k₂ := k₁.modify h ({ · with quantumTime := 0 })
  let k₃ := k₂.setTimer (min k₂.config.quantum k₂.untilTick)
  exact .dispatched (.dispatch hcurrent hready)
    (show SameProcesses _ k₃ from ⟨rfl, rfl, rfl, rfl, rfl, rfl, rfl, rfl⟩) hms

theorem schedule_tells (k : Kernel) :
    (schedule k).Tells (fun decision k' log => k.Decided decision (moves log) k')
      fun _ k' log => k' = k ∧ moves log = [] := by
  have hchoice := k.choice_schedule
  generalize schedule k = o at hchoice ⊢
  cases hchoice with
  | resume hh => exact (resumeCurrent_decided hh).mono (fun _ _ _ h => h) fun _ _ _ => False.elim
  | dispatch hcurrent hready =>
    exact (dispatchNext_decided hcurrent hready).mono (fun _ _ _ h => h) fun _ _ _ => False.elim
  | halt hcurrent =>
    exact .waited hcurrent ⟨rfl, rfl, rfl, rfl, rfl, rfl, rfl, rfl⟩ (.inr rfl)
  | deadlock => exact ⟨rfl, rfl⟩
  | wait hcurrent =>
    have hgather := k.sameProcesses_gatherTick
    generalize k.gatherTick = k₁ at hgather
    exact .waited hcurrent (hgather.trans (k₁.sameProcesses_setMachine _)) (.inl rfl)

/-- Whatever a call leaves is reached by a course of permitted deeds after which `ok` holds, and by
the decision what runs next, unless there is none. -/
def Ended (allowed : Deed → Prop) (k : Kernel) (o : Outcome Kernel Decision)
    (ok : Kernel → Prop) : Prop :=
  o.Tells
    (fun decision k' log => ∃ k₁ ms ms', Course allowed k ms k₁ ∧ ok k₁ ∧
      k₁.Decided decision ms' k' ∧ moves log = ms ++ ms')
    fun _ k' log => Course allowed k (moves log) k' ∧ ok k'

theorem Along.ended {x : Action Kernel α} {ok : Kernel → Prop}
    (hx : Along allowed k (x k) fun _ => ok)
    (hfault : ∀ cause k' log, x k = .fault cause k' log → ok k') :
    Ended allowed k ((x >>= fun _ => schedule) k) ok := by
  unfold Ended
  rw [Action.tells_bind]
  unfold Along at hx
  cases hrun : x k with
  | abort cause => trivial
  | fault cause k' log =>
    rw [hrun] at hx
    exact ⟨hx, hfault cause k' log hrun⟩
  | ok a k₁ log =>
    rw [hrun] at hx
    obtain ⟨hc, hok⟩ := hx
    refine (schedule_tells k₁).mono ?_ ?_
    · intro decision k' rest hd
      exact ⟨k₁, moves log, moves rest, hc, hok, hd, moves_append log rest⟩
    · rintro _ k' rest ⟨rfl, hrest⟩
      rw [moves_append, hrest, List.append_nil]
      exact ⟨hc, hok⟩

namespace Ended

variable {o : Outcome Kernel Decision} {ok ok' : Kernel → Prop}

theorem of_course (hc : Course allowed k [] k₁) (ho : Ended allowed k₁ o ok) :
    Ended allowed k o ok :=
  Tells.mono ho
    (fun _ _ _ ⟨k₂, ms, ms', hc', hok, hd, hms⟩ =>
      ⟨k₂, ms, ms', hc.append hc', hok, hd, hms⟩)
    fun _ _ _ h => ⟨hc.append h.1, h.2⟩

theorem mono (ho : Ended allowed k o ok) (himp : ∀ deed, allowed deed → allowed' deed)
    (hok : ∀ k', ok k' → ok' k') : Ended allowed' k o ok' :=
  Tells.mono ho
    (fun _ _ _ ⟨k₂, ms, ms', hc, h, hd, hms⟩ => ⟨k₂, ms, ms', hc.mono himp, hok _ h, hd, hms⟩)
    fun _ _ _ h => ⟨h.1.mono himp, hok _ h.2⟩

/-- A call that leaves a state has followed its course. -/
theorem of_state? (ho : Ended allowed k o ok) (h : o.state? = some k') :
    ∃ k₁ ms ms', Course allowed k ms k₁ ∧ ok k₁ ∧ moves o.log = ms ++ ms' ∧
      (k' = k₁ ∧ ms' = [] ∨ ∃ decision, k₁.Decided decision ms' k') := by
  cases o with
  | ok decision s log =>
    obtain rfl := Option.some.inj h
    obtain ⟨k₁, ms, ms', hc, hok, hd, hms⟩ := ho
    exact ⟨k₁, ms, ms', hc, hok, hms, .inr ⟨decision, hd⟩⟩
  | fault cause s log =>
    obtain rfl := Option.some.inj h
    exact ⟨s, moves log, [], ho.1, ho.2, (List.append_nil _).symm, .inl ⟨rfl, rfl⟩⟩
  | abort cause => cases h

end Ended

/-! ## Traps -/

/-- The class of the exception that a trap of the running process raises, the state that is passed
up and the machine from which this happens, if the nucleus does not serve the trap itself. A request
for a service from user mode is turned into a program trap. -/
def exception? (k : Kernel) (vector : TrapVector) :
    Option (ExceptionClass × ProcessorState × Machine) :=
  let trap := k.machine.loadState vector.oldArea
  match vector with
  | .interrupt => none
  | .tlb => some (.tlb, trap, k.machine)
  | .programTrap => some (.programTrap, trap, k.machine)
  | .sysBreak =>
    match trap.code? with
    | some .syscall =>
      if trap.fromUserMode then
        if Service.isReserved trap.a0 then
          let refused := { trap with cause := Cause.withCode trap.cause .reservedInstruction }
          some (.programTrap, refused,
            k.machine.storeState TrapVector.programTrap.oldArea refused)
        else some (.sysBreak, trap, k.machine)
      else if Service.ofTrap? trap = none then some (.sysBreak, trap, k.machine) else none
    | some .breakpoint => some (.sysBreak, trap, k.machine)
    | _ => none

/-- The deeds by which the interrupted state of a process is saved. -/
def BySaving (h : Slot) : Deed → Prop
  | .world => True
  | .save g _ | .charge g _ => g = h
  | .latch _ _ | .result _ _ | .announce _ _ _ | .block _ _ | .wake _ _ | .expire _ | .dispatch _
  | .enroll _ _ | .retire _ => False

/-- The running process `h` has had `state` saved, and nothing else has happened to any process. -/
structure Saved (k : Kernel) (h : Slot) (state : ProcessorState) (k' : Kernel) : Prop where
  course : Course (BySaving h) k [] k'
  alike : k.Alike k'
  state : (k'.contextAt h).state = state

theorem saved_saved (hh : k.current = some h) (state : ProcessorState) :
    k.Saved h state (k.saved h state) := by
  have hsave : Course (BySaving h) k [] (k.modify h ({ · with state })) :=
    .quiet (.save h state) rfl (.save hh state) rfl
  have hcurrent : (k.modify h ({ · with state })).current = some h := hh
  refine ⟨hsave.append (charge_course hcurrent trivial fun _ => rfl), .capture k h state, ?_⟩
  obtain ⟨micros, chargedUntil, heq⟩ := charge_of_current hcurrent
  unfold Kernel.saved
  rw [heq]
  simp [contextAt, modify, Descriptor.context, Descriptor.charge]

theorem Saved.setMachine {state : ProcessorState} (hs : k.Saved h state k₁) (machine : Machine) :
    k.Saved h state { k₁ with machine } :=
  ⟨hs.course.append (setMachine_course trivial k₁ machine),
    hs.alike.trans (.setMachine k₁ machine), hs.state⟩

/-- A state that is saved later counts. -/
theorem Saved.again {state : ProcessorState} (hs : k.Saved h state k₁) (hh : k.current = some h)
    (later : ProcessorState) : k.Saved h later (k₁.saved h later) :=
  have hlater := saved_saved (hs.alike.current.trans hh) later
  ⟨hs.course.append hlater.course, hs.alike.trans hlater.alike, hlater.state⟩

/-- The old area has been saved, and the process is to go on behind the instruction that trapped. -/
def requested (k : Kernel) (h : Slot) : Kernel :=
  (k.saved h (k.machine.loadState TrapVector.sysBreak.oldArea)).modify h (·.skipInstruction)

/-- The state in which a process goes on after a service, but for its result. -/
def behind (trap : ProcessorState) : ProcessorState := { trap with pc := trap.pc + wordSize }

theorem saved_requested (hh : k.current = some h) :
    k.Saved h (behind (k.machine.loadState TrapVector.sysBreak.oldArea)) (k.requested h) := by
  set trap := k.machine.loadState TrapVector.sysBreak.oldArea with htrap
  have hsaved := saved_saved hh trap
  have hcurrent : (k.saved h trap).current = some h := hsaved.alike.current.trans hh
  have hskip : (k.saved h trap).modify h (·.skipInstruction) =
      (k.saved h trap).modify h ({ · with state := behind trap }) := by
    apply modify_congr
    have hstate : ((k.saved h trap).processes.get h).state = trap := hsaved.state
    simp only [Descriptor.skipInstruction, hstate, behind]
  unfold requested
  rw [← htrap, hskip]
  refine ⟨hsaved.course.append (.quiet (.save h _) rfl (.save hcurrent _) rfl),
    hsaved.alike.trans (.setState _ h _), ?_⟩
  simp [contextAt, modify, Descriptor.context]

theorem machine_requested (k : Kernel) (h : Slot) : (k.requested h).machine = k.machine :=
  k.machine_saved h _

/-- What the handling of a trap comes to. -/
inductive Handled (k : Kernel) : TrapVector → Outcome Kernel Decision → Prop
  /-- A trap that is no interrupt, and no process runs. -/
  | nobody {vector : TrapVector} (hv : vector ≠ .interrupt) (hh : k.current = none) :
    Handled k vector (.fault .noCurrentProcess k [])
  /-- An interrupt of the waiting processor. -/
  | idle (hh : k.current = none) (cause : Word)
    (hcause : cause = (k.machine.loadState TrapVector.interrupt.oldArea).cause) :
    Handled k .interrupt ((serveInterrupt cause >>= fun _ => schedule) k)
  /-- An interrupt of the running process. -/
  | interrupt {h : Slot} {k₁ : Kernel} (hh : k.current = some h) (cause : Word)
    (hcause : cause = (k.machine.loadState TrapVector.interrupt.oldArea).cause)
    (hs : k.Saved h (k.machine.loadState TrapVector.interrupt.oldArea) k₁)
    (hm : k₁.machine = k.machine) :
    Handled k .interrupt ((serveInterrupt cause >>= fun _ => schedule) k₁)
  /-- A request for a service. -/
  | service {h : Slot} {service : Service} (hh : k.current = some h)
    (hservice : k.service? = some service) :
    Handled k .sysBreak ((serve h service >>= fun _ => schedule) (k.requested h))
  /-- An exception of the running process. -/
  | exception {h : Slot} {vector : TrapVector} {c : ExceptionClass} {passed state : ProcessorState}
    {machine : Machine} {k₁ : Kernel} (hh : k.current = some h)
    (hx : k.exception? vector = some (c, passed, machine)) (hs : k.Saved h state k₁)
    (hm : k₁.machine = machine) :
    Handled k vector ((raiseException h c passed >>= fun _ => schedule) k₁)
  /-- A trap for no reason that is known. -/
  | unexpected {h : Slot} {code : Word} (hh : k.current = some h) (hservice : k.service? = none)
    (hx : k.exception? .sysBreak = none)
    (hcode : code = Cause.codeNumber (k.machine.loadState TrapVector.sysBreak.oldArea).cause) :
    Handled k .sysBreak (.fault (.unexpectedException code) (k.requested h) [])

theorem capture_bind_apply {β : Type} (vector : TrapVector)
    (f : Slot × ProcessorState → Action Kernel β) (k : Kernel) :
    (capture vector >>= f) k =
      match k.current with
      | none => .fault .noCurrentProcess k []
      | some h => f (h, k.machine.loadState vector.oldArea)
          (k.saved h (k.machine.loadState vector.oldArea)) := by
  unfold capture
  rw [bind_assoc, Action.look_bind_apply]
  cases k.current with
  | none => rfl
  | some h =>
    dsimp only
    rw [bind_assoc, Action.look_bind_apply, bind_assoc, Action.change_bind_apply,
      Action.pure_bind_apply]
    rfl

/-- A trap of the running process that is an exception whatever caused it. -/
theorem captureAndRaise_handled {vector : TrapVector} {c : ExceptionClass}
    (hv : vector ≠ .interrupt)
    (hx : k.exception? vector = some (c, k.machine.loadState vector.oldArea, k.machine)) :
    k.Handled vector ((capture vector >>= fun (h, trap) =>
      raiseException h c trap >>= fun _ => schedule) k) := by
  rw [capture_bind_apply]
  cases hh : k.current with
  | none => exact .nobody hv hh
  | some h => exact .exception hh hx (saved_saved hh _) (k.machine_saved h _)

/-- A program trap that the nucleus makes of another trap, with the old area as it is by then. -/
theorem handleProgramTrap_handled {vector : TrapVector} {state : ProcessorState}
    (hh : k.current = some h) (hs : k.Saved h state k₁)
    (hx : k.exception? vector = some (.programTrap,
      k₁.machine.loadState TrapVector.programTrap.oldArea, k₁.machine)) :
    k.Handled vector (handleProgramTrap k₁) := by
  unfold handleProgramTrap
  rw [capture_bind_apply, hs.alike.current.trans hh]
  exact .exception hh hx (hs.again hh _) (k₁.machine_saved h _)

/-- A service of the nucleus that is requested from user mode is a program trap. -/
theorem handleUserRequest_handled {trap : ProcessorState} (hh : k.current = some h)
    (htrap : k.machine.loadState TrapVector.sysBreak.oldArea = trap)
    (hcode : trap.code? = some .syscall) (huser : trap.fromUserMode = true) :
    k.Handled .sysBreak (handleUserRequest h trap (k.requested h)) := by
  have hsaved := saved_requested hh
  have hmachine := k.machine_requested h
  generalize k.requested h = k₁ at hsaved hmachine
  unfold handleUserRequest
  cases hreserved : Service.isReserved trap.a0 with
  | true =>
    rw [if_pos rfl, Action.change_bind_apply, hmachine]
    refine handleProgramTrap_handled hh (hsaved.setMachine _) ?_
    dsimp only
    rw [Machine.loadState_storeState (Machine.plain_oldArea .programTrap)]
    simp only [exception?, htrap, hcode, huser, if_true, hreserved]
  | false =>
    rw [if_neg Bool.false_ne_true]
    refine .exception hh ?_ hsaved hmachine
    simp only [exception?, htrap, hcode, huser, if_true, hreserved, if_neg Bool.false_ne_true]

/-- Handling a trap comes to an interrupt, a service, an exception or nothing. -/
theorem dispatch_handled (k : Kernel) (vector : TrapVector) :
    k.Handled vector (dispatch vector k) := by
  cases vector with
  | tlb => exact captureAndRaise_handled TrapVector.noConfusion rfl
  | programTrap => exact captureAndRaise_handled TrapVector.noConfusion rfl
  | interrupt =>
    unfold dispatch handleInterrupt
    dsimp only
    rw [Action.look_bind_apply, Action.change_bind_apply]
    cases hh : k.current with
    | none => exact .idle hh _ rfl
    | some h => exact .interrupt hh _ rfl (saved_saved hh _) (k.machine_saved h _)
  | sysBreak =>
    unfold dispatch handleSysBreak
    dsimp only
    rw [capture_bind_apply]
    cases hh : k.current with
    | none => exact .nobody TrapVector.noConfusion hh
    | some h =>
      dsimp only
      rw [Action.change_bind_apply]
      have hsaved := saved_requested hh
      have hmachine := k.machine_requested h
      have hservice : k.service? = _ := service?.eq_1 k
      show k.Handled .sysBreak ((_ : Action Kernel Decision) (k.requested h))
      generalize htrap : k.machine.loadState TrapVector.sysBreak.oldArea = trap at hservice
      cases hcode : trap.code? with
      | none =>
        rw [hcode, if_neg fun hand => by cases hand.2.1] at hservice
        refine .unexpected hh hservice ?_ (by rw [htrap])
        simp only [exception?, htrap, hcode]
      | some code =>
        cases code with
        | syscall =>
          dsimp only
          cases huser : trap.fromUserMode with
          | true => exact handleUserRequest_handled hh htrap hcode huser
          | false =>
            rw [if_neg Bool.false_ne_true]
            have hne : k.current ≠ none := hh ▸ Option.some_ne_none h
            rw [if_pos ⟨hne, hcode, huser⟩] at hservice
            unfold handleRequest
            cases hof : Service.ofTrap? trap with
            | some service => exact .service hh (hservice.trans hof)
            | none =>
              refine .exception hh ?_ hsaved hmachine
              simp only [exception?, htrap, hcode, huser, hof, if_neg Bool.false_ne_true, if_true]
        | breakpoint =>
          refine .exception hh ?_ hsaved hmachine
          simp only [exception?, htrap, hcode]
        | _ =>
          rw [hcode, if_neg fun hand => by cases hand.2.1] at hservice
          refine .unexpected hh hservice ?_ (by rw [htrap])
          simp only [exception?, htrap, hcode]

theorem exception?_of_service {service : Service} (hservice : k.service? = some service) :
    k.exception? .sysBreak = none := by
  unfold service? at hservice
  dsimp only at hservice
  split at hservice
  · rename_i htrap
    simp only [exception?, htrap.2.1, htrap.2.2, hservice, if_neg Bool.false_ne_true]
    rfl
  · cases hservice

/-- A request for a service is served. -/
theorem dispatch_of_service {service : Service} (hservice : k.service? = some service) :
    ∃ h, k.current = some h ∧
      dispatch .sysBreak k = (serve h service >>= fun _ => schedule) (k.requested h) := by
  have hhandled := k.dispatch_handled .sysBreak
  generalize dispatch .sysBreak k = o at hhandled
  cases hhandled with
  | nobody hv hh =>
    unfold service? at hservice
    dsimp only at hservice
    rw [if_neg fun hand => hand.1 hh] at hservice
    cases hservice
  | @service h service' hh hservice' =>
    obtain rfl := Option.some.inj (hservice'.symm.trans hservice)
    exact ⟨h, hh, rfl⟩
  | exception hh hx hs hm => cases hx.symm.trans (exception?_of_service hservice)
  | unexpected hh hnone => cases hnone.symm.trans hservice

/-! ## Calls -/

/-- The device that completes when a trap is handled, and its status. -/
def trapCompletion? (k : Kernel) : TrapVector → Option (Device × Word)
  | .interrupt => k.completion? (.ofCause (k.machine.loadState TrapVector.interrupt.oldArea).cause)
  | .sysBreak | .programTrap | .tlb => none

/-- The device that completes at a call, and its status. -/
def Call.completion? (call : Call) (k : Kernel) : Option (Device × Word) :=
  (call.trap? k).bind fun (vector, k) => k.trapCompletion? vector

/-- The deeds of a call before it is decided what runs next. Only the process that ran before it
gets a state, is charged or announces a handler, and besides only the oldest waiter of a device that
completes gets a result. A call that creates a process removes none. -/
def ByCall (k : Kernel) (completion : Option (Device × Word)) (creates : Bool) : Deed → Prop
  | .world | .block _ _ | .wake _ _ | .expire _ => True
  | .save h _ | .charge h _ | .announce h _ _ => k.current = some h
  | .result h value => k.current = some h ∨
    ∃ d, completion = some (d, value) ∧ (k.waits.waiting (.device d)).head? = some h
  | .latch d status => completion = some (d, status) ∧ k.waits.waiting (.device d) = []
  | .enroll _ parent => creates = true ∧ ∃ p, parent = some p ∧ k.current = some p
  | .retire _ => creates = false
  | .dispatch _ => False

/-- If a device completes, its status is handed over. -/
def Delivers (k : Kernel) (completion : Option (Device × Word)) (k' : Kernel) : Prop :=
  ∀ d status, completion = some (d, status) → k.HandedOver d status k'

theorem byCall_of_saving (hh : k.current = some h) (completion : Option (Device × Word))
    (creates : Bool) (deed : Deed) (hd : BySaving h deed) : k.ByCall completion creates deed := by
  cases deed with
  | world => trivial
  | save | charge => exact hd ▸ hh
  | _ => exact hd.elim

theorem byCall_of_service (hh : k.current = some h) (completion : Option (Device × Word))
    (creates : Bool) (deed : Deed) (hd : ByService h creates deed) :
    k.ByCall completion creates deed := by
  cases deed with
  | world | wake | block => trivial
  | result => exact .inl (hd ▸ hh)
  | charge | announce => exact hd ▸ hh
  | enroll => exact ⟨hd.1, h, hd.2, hh⟩
  | retire => exact hd
  | _ => exact hd.elim

theorem byCall_of_exception (hh : k.current = some h) (completion : Option (Device × Word))
    (deed : Deed) (hd : ByException h deed) : k.ByCall completion false deed := by
  cases deed with
  | world => trivial
  | save => exact hd ▸ hh
  | retire => exact rfl
  | _ => exact hd.elim

theorem byCall_of_interrupt (hwaits : k₁.waits = k.waits) {completion : Option (Device × Word)}
    (creates : Bool) (deed : Deed) (hd : ByInterrupt k₁ completion deed) :
    k.ByCall completion creates deed := by
  cases deed with
  | world | wake | expire => trivial
  | result =>
    obtain ⟨d, hcompletion, hhead⟩ := hd
    exact .inr ⟨d, hcompletion, hwaits ▸ hhead⟩
  | latch => exact ⟨hd.1, hwaits ▸ hd.2⟩
  | _ => exact hd.elim

theorem raiseException_faultless (h : Slot) (c : ExceptionClass) (trap : ProcessorState)
    (hk : k.Accounted) :
    (raiseException h c trap k).Tells (fun _ _ _ => True) fun _ _ _ => False := by
  unfold raiseException
  rw [Action.look_bind_apply]
  cases (k.processes.get h).handler c with
  | some handler =>
    rw [Action.tells_bind, Action.tells_note]
    unfold enterHandler
    rw [Action.tells_bind]
    refine Action.tells_attempt fun k₁ _ => ?_
    rw [Action.look_bind_apply, Action.tells_bind]
    exact Action.tells_check fun _ _ => trivial
  | none =>
    rw [Action.tells_bind, Action.tells_note, Action.tells_discard]
    obtain ⟨found, k', log, heq, -⟩ := (hk.terminate (k.pidAt h)).exists
    exact heq ▸ trivial

/-- Serving an interrupt delivers a status if a device completes. -/
theorem serveInterrupt_ended (hk : k.Sound) (cause : Word) :
    Ended (ByInterrupt k (k.completion? (.ofCause cause))) k
      ((serveInterrupt cause >>= fun _ => schedule) k)
      (k.Delivers (k.completion? (.ofCause cause))) := by
  refine (serveInterrupt_serves hk.toAccounted cause).ended fun _ _ _ heq => ?_
  obtain ⟨_, _, _, hok, -⟩ := (steady_sound.serveInterrupt hk cause).exists
  cases hok.symm.trans heq

/-- An exception that is raised goes to the handler of the process or terminates it. -/
theorem raiseException_ended (hk : k.Accounted) (hh : k.current = some h) (c : ExceptionClass)
    (trap : ProcessorState) :
    Ended (ByException h) k ((raiseException h c trap >>= fun _ => schedule) k)
      (k.Raised h c trap) := by
  refine (raiseException_along hk hh c trap).ended fun _ _ _ heq => ?_
  have hnever := raiseException_faultless h c trap hk
  rw [heq] at hnever
  exact hnever.elim

theorem serve_ended (hk : k.Sound) (hh : k.current = some h) (service : Service) :
    Ended (ByService h (creates service)) k ((serve h service >>= fun _ => schedule) k)
      fun _ => True :=
  (serve_along hk hh service).ended fun _ _ _ _ => trivial

/-- Saving the running process does not touch the others. -/
theorem Saved.contextAt {state : ProcessorState} (hs : k.Saved h state k₁) (hne : h ≠ g)
    (hg : k.processes.isUsed g = true) : k₁.contextAt g = k.contextAt g := by
  have hg' : k₁.processes.isUsed g = true := (hs.alike.isUsed g).trans hg
  refine hs.course.context (P := fun c => c = k.contextAt g) (.inl fun _ hd => hd) hg hg' ?_ rfl
  rintro deed _ hd rfl
  cases deed with
  | world => rfl
  | save g' state | charge g' micros => exact if_neg (hd ▸ hne)
  | _ => exact hd.elim

theorem Saved.delivers {state : ProcessorState} {completion : Option (Device × Word)}
    (hs : k.Saved h state k₁) (hk : k.Accounted) (hh : k.current = some h)
    (hd : k₁.Delivers completion k') : k.Delivers completion k' := by
  intro d status hcompletion
  have hover := hd d status hcompletion
  unfold HandedOver at hover ⊢
  rw [hs.alike.waits] at hover
  cases hq : k.waits.waiting (.device d) with
  | nil =>
    rw [hq] at hover
    exact hover
  | cons g rest =>
    rw [hq] at hover
    have hmem : g ∈ k.waits.waiting (.device d) := hq ▸ List.mem_cons_self
    have hne : h ≠ g := by
      rintro rfl
      have hplace := (hk.at_processor hh).mem_iff (q := .waitList (.device d))
      exact Place.noConfusion (hplace.1 hmem)
    have hkept := hs.contextAt hne (hk.used_of_mem (p := .waitList (.device d)) hmem)
    dsimp only at hover
    rwa [hkept] at hover

theorem completion?_congr (hm : k₁.machine = k.machine) (source : InterruptSource) :
    k₁.completion? source = k.completion? source := by
  unfold completion?
  cases source <;> simp only [completed?, hm]

theorem trapCompletion?_interrupt {cause : Word}
    (hcause : cause = (k.machine.loadState TrapVector.interrupt.oldArea).cause) :
    k.trapCompletion? .interrupt = k.completion? (.ofCause cause) := by
  rw [trapCompletion?, hcause]

/-- Handling a trap follows a course, and if a device completes its status is delivered. -/
theorem dispatch_ended (hk : k.Sound) (vector : TrapVector) :
    ∃ creates, Ended (k.ByCall (k.trapCompletion? vector) creates) k (dispatch vector k)
      (k.Delivers (k.trapCompletion? vector)) := by
  have hquiet : ∀ {vector : TrapVector} (k' : Kernel), vector ≠ .interrupt →
      k.Delivers (k.trapCompletion? vector) k' := by
    intro vector k' hv d status heq
    cases vector <;> first | exact absurd rfl hv | cases heq
  have hhandled := k.dispatch_handled vector
  generalize dispatch vector k = o at hhandled ⊢
  cases hhandled with
  | nobody hv hh => exact ⟨false, .refl k, hquiet k hv⟩
  | idle hh cause hcause =>
    rw [trapCompletion?_interrupt hcause]
    exact ⟨false, (serveInterrupt_ended hk _).mono (byCall_of_interrupt rfl false) fun _ h => h⟩
  | @interrupt h k₁ hh cause hcause hs hm =>
    have hended := serveInterrupt_ended (hk.congr hs.alike) cause
    rw [completion?_congr hm, ← trapCompletion?_interrupt hcause] at hended
    refine ⟨false, .of_course (hs.course.mono (byCall_of_saving hh _ false)) ?_⟩
    exact hended.mono (byCall_of_interrupt hs.alike.waits false) fun _ =>
      hs.delivers hk.toAccounted hh
  | @service h service hh hservice =>
    have hs := saved_requested hh
    refine ⟨creates service, .of_course (hs.course.mono (byCall_of_saving hh _ _)) ?_⟩
    exact (serve_ended (hk.congr hs.alike) (hs.alike.current.trans hh) service).mono
      (byCall_of_service hh _ _) fun k' _ => hquiet k' TrapVector.noConfusion
  | @exception h vector c passed state machine k₁ hh hx hs hm =>
    have hv : vector ≠ .interrupt := by
      rintro rfl
      cases hx
    refine ⟨false, .of_course (hs.course.mono (byCall_of_saving hh _ false)) ?_⟩
    have hk₁ := (hk.congr hs.alike).toAccounted
    exact (raiseException_ended hk₁ (hs.alike.current.trans hh) c passed).mono
      (byCall_of_exception hh _) fun k' _ => hquiet k' hv
  | @unexpected h code hh hservice =>
    have hs := saved_requested hh
    exact ⟨false, hs.course.mono (byCall_of_saving hh _ false), hquiet _ TrapVector.noConfusion⟩

/-- A change of the machine before a call does not touch the processes. -/
theorem Ended.of_machine {o : Outcome Kernel Decision} {machine : Machine}
    {completion : Option (Device × Word)} {creates : Bool} {ok : Kernel → Prop}
    (ho : Ended (ByCall { k with machine } completion creates) { k with machine } o ok) :
    Ended (k.ByCall completion creates) k o ok := by
  refine .of_course (setMachine_course trivial k machine) (ho.mono (fun deed hd => ?_) fun _ h => h)
  cases deed <;> exact hd

/-- Every call follows a course, and if a device completes its status is delivered. -/
theorem Sound.call_ended (hk : k.Sound) (call : Call) :
    ∃ creates, Ended (k.ByCall (call.completion? k) creates) k (call.run k)
      (k.Delivers (call.completion? k)) := by
  cases htrap : call.trap? k with
  | some trap =>
    obtain ⟨vector, k₁⟩ := trap
    obtain ⟨⟨machine, rfl⟩, hrun⟩ := Call.run_eq_of_trap? htrap
    have hcompletion : call.completion? k = trapCompletion? { k with machine } vector := by
      rw [Call.completion?, htrap]
      rfl
    obtain ⟨creates, hended⟩ := dispatch_ended (hk.congr (.setMachine k machine)) vector
    rw [hrun, hcompletion]
    exact ⟨creates, hended.of_machine⟩
  | none =>
    have hcompletion : call.completion? k = none := by
      rw [Call.completion?, htrap]
      rfl
    rcases Call.run_of_no_trap htrap with rfl | ⟨cause, habort⟩
    · have hnothing : Along (k.ByCall none false) k ((pure () : Action Kernel Unit) k)
          fun _ k' => k.Delivers none k' := .pure fun _ _ heq => nomatch heq
      have hended := hnothing.ended fun _ _ _ heq => by cases heq
      rw [Action.pure_bind_apply] at hended
      exact ⟨false, hcompletion ▸ hended⟩
    · rw [habort]
      exact ⟨false, trivial⟩

end Nucleus.Kernel
