import Nucleus.Proofs.Kernel.Delivery
import Nucleus.Proofs.Kernel.Exhaustion
import Nucleus.Proofs.Kernel.Faults
import Nucleus.Proofs.Kernel.Rescheduling
import Nucleus.Proofs.Kernel.Teardown

/-!
# Passing up an exception

An exception that the nucleus does not serve goes to the handler that the running process announced
for its class. The interrupted state is stored in the handler's old area, and the process goes on
with the state in the new area. Unless the areas meet each other or the registers, the handler gets
exactly the state of the trap, and nothing else has changed but the times of the process
(`passingUpLaw_of_reachable`). Without a handler the process is terminated with its descendants.
-/

namespace Nucleus

/-- The state that is passed up when a request for a service is refused: a reserved instruction. -/
def ProcessorState.refused (trap : ProcessorState) : ProcessorState :=
  { trap with cause := Cause.withCode trap.cause .reservedInstruction }

/-- The areas of a handler end before the end of the address space, and keep clear of each other and
of the registers. -/
structure Handler.Clear (handler : Handler) : Prop where
  oldFits : handler.oldArea ≤ 0xffffff77
  newFits : handler.newArea ≤ 0xffffff77
  apart : ∀ i < stateWords, ∀ j < stateWords,
    Machine.stateAddress handler.oldArea i ≠ Machine.stateAddress handler.newArea j
  old : ∀ i < stateWords, ¬ Machine.InRegisterArea (Machine.stateAddress handler.oldArea i)
  new : ∀ i < stateWords, ¬ Machine.InRegisterArea (Machine.stateAddress handler.newArea i)

namespace Machine

variable {m : Machine} {address a : Word}

theorem plain_of_notInRegisterArea
    (h : ∀ i < stateWords, ¬ InRegisterArea (stateAddress address i)) : Plain address := fun i hi =>
  ofCommand?_of_notInRegisterArea (h i hi)

theorem read_setTimer (ha : a ≠ Bus.timer) (m : Machine) (timer : Word) :
    (m.write Bus.timer timer).read a = m.read a := by
  rw [write_of_plain (by decide), read_set, if_neg (Ne.symm ha)]

/-- The timer is not in an area that is clear of the registers. -/
theorem loadState_setTimer
    (h : ∀ i < stateWords, ¬ InRegisterArea (stateAddress address i)) (m : Machine) (timer : Word) :
    (m.write Bus.timer timer).loadState address = m.loadState address := by
  refine loadState_congr fun i hi => read_setTimer (fun heq => h i hi ?_) m timer
  rw [heq]
  decide

end Machine

namespace Kernel

open Outcome

variable {k k' k₁ : Kernel} {h g : Slot} {c : ExceptionClass} {handler : Handler}
  {vector : TrapVector} {passed trap : ProcessorState} {machine : Machine}

/-! ## Refusing -/

/-- The trap is a request for a service of the nucleus from user mode. -/
def Refuses (k : Kernel) : TrapVector → Prop
  | .sysBreak => k.trapped.code? = some .syscall ∧ k.trapped.fromUserMode = true ∧
      Service.isReserved k.trapped.a0 = true
  | .programTrap | .tlb | .interrupt => False

/-- The machine from which a refused request is handled as a program trap. -/
def refusing (k : Kernel) : Machine :=
  k.machine.storeState TrapVector.programTrap.oldArea k.trapped.refused

theorem exception?_of_refuses (hr : k.Refuses .sysBreak) :
    k.exception? .sysBreak = some (.programTrap, k.trapped.refused, k.refusing) := by
  obtain ⟨hcode, huser, hreserved⟩ := hr
  unfold trapped at hcode huser hreserved
  simp only [exception?, hcode, huser, hreserved, if_true]
  rfl

/-- A breakpoint, or a request for a service that there is none of. -/
def Unknown (k : Kernel) : Prop :=
  k.trapped.code? = some .breakpoint ∨ k.trapped.code? = some .syscall ∧
    (k.trapped.fromUserMode = true ∧ Service.isReserved k.trapped.a0 = false ∨
      k.trapped.fromUserMode = false ∧ Service.ofTrap? k.trapped = none)

theorem unknown_of_exception? (hx : k.exception? .sysBreak = some (c, passed, machine))
    (hr : ¬ k.Refuses .sysBreak) :
    k.Unknown ∧ c = .sysBreak ∧ passed = k.trapped ∧ machine = k.machine := by
  have htrap : k.machine.loadState TrapVector.sysBreak.oldArea = k.trapped := rfl
  unfold exception? at hx
  dsimp only at hx
  rw [htrap] at hx
  unfold Refuses at hr
  unfold Unknown
  generalize k.trapped = trap at hx hr ⊢
  split at hx
  · rename_i hcode
    split at hx
    · rename_i huser
      split at hx
      · rename_i hreserved
        exact absurd ⟨hcode, huser, hreserved⟩ hr
      · rename_i hreserved
        cases hx
        exact ⟨.inr ⟨hcode, .inl ⟨huser, Bool.not_eq_true _ ▸ hreserved⟩⟩, rfl, rfl, rfl⟩
    · rename_i huser
      split at hx
      · rename_i hservice
        cases hx
        exact ⟨.inr ⟨hcode, .inr ⟨Bool.not_eq_true _ ▸ huser, hservice⟩⟩, rfl, rfl, rfl⟩
      · cases hx
  · rename_i hcode
    cases hx
    exact ⟨.inl hcode, rfl, rfl, rfl⟩
  · cases hx

/-- If no request is refused, the state of the trap is passed up as it is. -/
theorem snapshot_of_exception? (hx : k.exception? vector = some (c, passed, machine))
    (hr : ¬ k.Refuses vector) :
    passed = k.machine.loadState vector.oldArea ∧ machine = k.machine := by
  cases vector with
  | interrupt => cases hx
  | tlb | programTrap =>
    obtain ⟨-, hrest⟩ := Prod.mk.inj (Option.some.inj hx)
    obtain ⟨hpassed, hmachine⟩ := Prod.mk.inj hrest
    exact ⟨hpassed.symm, hmachine.symm⟩
  | sysBreak =>
    obtain ⟨-, -, hsame⟩ := unknown_of_exception? hx hr
    exact hsame

/-! ## Saving the trap -/

theorem Touched.saved (hh : k.current = some h) (trap : ProcessorState) :
    k.Touched h k.machine (k.saved h trap) :=
  ((Touched.refl k h).modify (f := ({ · with state := trap })) fun d =>
    ⟨_, d.usedTime, d.quantumTime, rfl⟩).charge hh

theorem charge_setMachine {m : Machine} (hbus : k.machine.SameBus m) :
    charge { k with machine := m } = { k.charge with machine := m } := by
  unfold charge
  dsimp only
  rw [hbus.now, hbus.timeScale]
  cases k.current <;> rfl

theorem ChargedUp.setMachine {m : Machine} (hc : k.ChargedUp) (hbus : k.machine.SameBus m) :
    ChargedUp { k with machine := m } := by
  unfold ChargedUp
  dsimp only
  rw [hbus.now, hbus.timeScale]
  exact hc

theorem modify_modify (k : Kernel) (h : Slot) (f g : Descriptor → Descriptor) :
    (k.modify h f).modify h g = k.modify h (g ∘ f) := by
  unfold modify
  dsimp only
  rw [ProcessTable.modify_modify]

/-- A process that has been charged for a request is not charged again for its refusal. -/
theorem saved_again {m : Machine} (hh : k.current = some h) (hbus : k.machine.SameBus m)
    (trap : ProcessorState) :
    saved { k.requested h with machine := m } h trap = saved { k with machine := m } h trap := by
  have hrequested : k.requested h = k.charge.modify h ((·.skipInstruction) ∘
      ({ · with state := k.machine.loadState TrapVector.sysBreak.oldArea })) := by
    rw [requested, saved_eq hh, modify_modify]
  have hcurrent : (k.requested h).current = some h := (saved_requested hh).alike.current.trans hh
  have hcharged : (k.requested h).ChargedUp := by
    rw [hrequested]
    exact chargedUp_charge hh
  have hagain := hcharged.setMachine (machine_requested k h ▸ hbus)
  rw [saved_eq (k := { k.requested h with machine := m }) hcurrent, hagain.charge_eq hcurrent,
    saved_eq (k := { k with machine := m }) hh, charge_setMachine hbus, hrequested]
  generalize k.charge = k₁
  generalize k.machine.loadState TrapVector.sysBreak.oldArea = state
  have hlast : (k₁.modify h ((·.skipInstruction) ∘ ({ · with state }))).modify h
      ({ · with state := trap }) = k₁.modify h ({ · with state := trap }) := by
    rw [modify_modify]
    rfl
  exact congrArg (fun k₂ : Kernel => { k₂ with machine := m }) hlast

theorem handleProgramTrap_eq (hh : k.current = some h) :
    handleProgramTrap k = (raiseException h .programTrap
      (k.machine.loadState TrapVector.programTrap.oldArea) >>= fun _ => schedule)
        (k.saved h (k.machine.loadState TrapVector.programTrap.oldArea)) := by
  unfold handleProgramTrap
  rw [capture_bind_apply, hh]

theorem handleTlb_eq (hh : k.current = some h) :
    handleTlb k = (raiseException h .tlb
      (k.machine.loadState TrapVector.tlb.oldArea) >>= fun _ => schedule)
        (k.saved h (k.machine.loadState TrapVector.tlb.oldArea)) := by
  unfold handleTlb
  rw [capture_bind_apply, hh]

theorem handleSysBreak_eq (hh : k.current = some h) :
    handleSysBreak k =
      (match k.trapped.code? with
      | some .syscall =>
        if k.trapped.fromUserMode then handleUserRequest h k.trapped
        else handleRequest h k.trapped
      | some .breakpoint => raiseException h .sysBreak k.trapped >>= fun _ => schedule
      | _ => Action.fail (.unexpectedException (Cause.codeNumber k.trapped.cause)) :
        Action Kernel Decision) (k.requested h) := by
  unfold handleSysBreak
  rw [capture_bind_apply, hh]
  dsimp only
  rw [Action.change_bind_apply]
  rfl

/-- A refused request is handled like a program trap with the refused state in its old area. What
has been saved by then is overwritten, and the process is not charged twice. -/
theorem dispatch_refused (hh : k.current = some h) (hr : k.Refuses .sysBreak) :
    dispatch .sysBreak k = dispatch .programTrap { k with machine := k.refusing } := by
  have hbus : k.machine.SameBus k.refusing :=
    Machine.sameBus_storeState (Machine.not_isBusRegister_oldArea .programTrap) _ _
  obtain ⟨hcode, huser, hreserved⟩ := hr
  calc dispatch .sysBreak k
      = handleUserRequest h k.trapped (k.requested h) := by
        show handleSysBreak k = _
        rw [handleSysBreak_eq hh, hcode]
        dsimp only
        rw [huser, if_pos rfl]
    _ = handleProgramTrap { k.requested h with machine := k.refusing } := by
        unfold handleUserRequest
        rw [hreserved, if_pos rfl, Action.change_bind_apply]
        exact congrArg (fun m : Machine => handleProgramTrap { k.requested h with
          machine := m.storeState TrapVector.programTrap.oldArea k.trapped.refused })
          (machine_requested k h)
    _ = handleProgramTrap { k with machine := k.refusing } := by
        rw [handleProgramTrap_eq (k := { k with machine := k.refusing }) hh,
          handleProgramTrap_eq (k := { k.requested h with machine := k.refusing })
            ((saved_requested hh).alike.current.trans hh), saved_again hh hbus]

theorem dispatch_unknown (hh : k.current = some h) (hu : k.Unknown) :
    dispatch .sysBreak k =
      (raiseException h .sysBreak k.trapped >>= fun _ => schedule) (k.requested h) := by
  show handleSysBreak k = _
  rw [handleSysBreak_eq hh]
  rcases hu with hcode | ⟨hcode, ⟨huser, hreserved⟩ | ⟨huser, hservice⟩⟩
  · rw [hcode]
  · rw [hcode]
    dsimp only
    unfold handleUserRequest
    rw [huser, if_pos rfl, hreserved, if_neg Bool.false_ne_true]
  · rw [hcode]
    dsimp only
    unfold handleRequest
    rw [huser, if_neg Bool.false_ne_true, hservice]

/-- An exception is raised once the state of the trap is saved. -/
theorem dispatch_exception (hh : k.current = some h)
    (hx : k.exception? vector = some (c, passed, machine)) :
    ∃ k₁, k.Touched h machine k₁ ∧
      dispatch vector k = (raiseException h c passed >>= fun _ => schedule) k₁ := by
  cases vector with
  | interrupt => cases hx
  | tlb =>
    obtain ⟨rfl, rfl⟩ := snapshot_of_exception? hx id
    obtain ⟨rfl, -⟩ := Prod.mk.inj (Option.some.inj hx)
    exact ⟨_, .saved hh _, handleTlb_eq hh⟩
  | programTrap =>
    obtain ⟨rfl, rfl⟩ := snapshot_of_exception? hx id
    obtain ⟨rfl, -⟩ := Prod.mk.inj (Option.some.inj hx)
    exact ⟨_, .saved hh _, handleProgramTrap_eq hh⟩
  | sysBreak =>
    by_cases hr : k.Refuses .sysBreak
    · have hstored : k.refusing.loadState TrapVector.programTrap.oldArea = k.trapped.refused :=
        Machine.loadState_storeState (Machine.plain_oldArea .programTrap) _ _
      have hrun := dispatch_refused hh hr
      rw [exception?_of_refuses hr] at hx
      obtain ⟨rfl, hrest⟩ := Prod.mk.inj (Option.some.inj hx)
      obtain ⟨rfl, rfl⟩ := Prod.mk.inj hrest
      generalize k.refusing = m at hstored hrun ⊢
      have hm : k.Touched h m { k with machine := m } :=
        .of_times k h m k.chargedUntil k.tickMicros k.tickUntil
      refine ⟨saved { k with machine := m } h k.trapped.refused, ?_, ?_⟩
      · exact hm.trans (.saved (k := { k with machine := m }) hh _)
      · rw [hrun, ← hstored]
        exact handleProgramTrap_eq (k := { k with machine := m }) hh
    · obtain ⟨hu, rfl, rfl, rfl⟩ := unknown_of_exception? hx hr
      exact ⟨_, .requested hh, dispatch_unknown hh hu⟩

/-! ## What is touched -/

namespace Touched

theorem alike (ht : k.Touched h machine k') : k.Alike k' := by
  obtain ⟨state, usedTime, quantumTime, chargedUntil, tickMicros, tickUntil, rfl⟩ := ht
  have htimes : k.Alike { k with machine, chargedUntil, tickMicros, tickUntil } :=
    .of_eq rfl rfl rfl rfl rfl rfl rfl
  have hdescriptor := Alike.modify
    (k := { k with machine, chargedUntil, tickMicros, tickUntil }) (h := h)
    (f := ({ · with state, usedTime, quantumTime })) (fun _ => ⟨rfl, rfl, rfl, rfl, rfl⟩)
    fun _ => ⟨rfl, rfl⟩
  exact htimes.trans hdescriptor

theorem clockBooks (ht : k.Touched h machine k') (hb : k.ClockBooks) : k'.ClockBooks := by
  obtain ⟨state, usedTime, quantumTime, chargedUntil, tickMicros, tickUntil, rfl⟩ := ht
  exact hb

theorem descends (ht : k.Touched h machine k') :
    k'.processes.Descends = k.processes.Descends :=
  ProcessTable.descends_congr fun g => (ht.alike.entry g).parent

end Touched

/-! ## Entering the handler -/

theorem enterHandler_eq (k : Kernel) (h : Slot) (handler : Handler) (passed : ProcessorState) :
    enterHandler h handler passed k =
      match k.machine.writeState handler.oldArea passed with
      | .error cause => .abort cause
      | .ok machine =>
        match machine.readState handler.newArea with
        | .error cause => .abort cause
        | .ok state => .ok () ({ k with machine }.modify h ({ · with state })) [] := by
  unfold enterHandler
  rw [Action.attempt_bind_apply]
  cases k.machine.writeState handler.oldArea passed with
  | error cause => rfl
  | ok machine =>
    change (Action.look Kernel.machine >>= fun _ => _) { k with machine } = _
    rw [Action.look_bind_apply, Action.check_bind_apply]
    dsimp only
    cases machine.readState handler.newArea with
    | error cause => rfl
    | ok state => rfl

/-- The state is stored in the old area, and the process goes on with the one in the new area. -/
theorem enterHandler_fits (hfits : ¬ handler.Overruns) (k : Kernel) (h : Slot)
    (passed : ProcessorState) :
    enterHandler h handler passed k = .ok ()
      ({ k with machine := k.machine.storeState handler.oldArea passed }.modify h ({ · with
        state :=
          (k.machine.storeState handler.oldArea passed).loadState handler.newArea })) [] := by
  obtain ⟨hold, hnew⟩ := not_or.1 hfits
  rw [enterHandler_eq, Machine.writeState, if_pos (eq_true_of_ne_false hold)]
  dsimp only
  rw [Machine.readState, if_pos (eq_true_of_ne_false hnew)]

theorem enterHandler_overruns (hover : handler.Overruns) (k : Kernel) (h : Slot)
    (passed : ProcessorState) : enterHandler h handler passed k = .abort .addOverflow := by
  have hnot : ∀ {b : Bool}, b = false → ¬ b = true := fun h => h ▸ Bool.false_ne_true
  rw [enterHandler_eq, Machine.writeState]
  by_cases hold : Machine.stateFits handler.oldArea = true
  · rw [if_pos hold]
    dsimp only
    rw [Machine.readState, if_neg (hnot (hover.resolve_left fun h => hnot h hold))]
  · rw [if_neg hold]

/-- An exception with a handler that cannot be entered breaks a check. -/
theorem dispatch_overruns (hh : k.current = some h)
    (hx : k.exception? vector = some (c, passed, machine))
    (hhandler : (k.processes.get h).handler c = some handler) (hover : handler.Overruns) :
    dispatch vector k = .abort .addOverflow := by
  obtain ⟨k₁, ht, hrun⟩ := dispatch_exception hh hx
  rw [hrun, Action.bind_apply]
  unfold raiseException
  rw [Action.look_bind_apply, (ht.alike.handlers h).handler, hhandler]
  dsimp only
  rw [Action.note_bind_apply, enterHandler_overruns hover]
  rfl

/-- An exception with a handler is passed up, and the process is resumed in its handler. -/
theorem dispatch_enters (hk : k.Accounted) (hh : k.current = some h)
    (hx : k.exception? vector = some (c, passed, machine))
    (hhandler : (k.processes.get h).handler c = some handler) (hfits : ¬ handler.Overruns) :
    ∃ timer k' log,
      dispatch vector k = .ok (.resume (k.pidAt h)
        ((machine.storeState handler.oldArea passed).loadState handler.newArea)) k' log ∧
      (k'.processes.get h).state =
        (machine.storeState handler.oldArea passed).loadState handler.newArea ∧
      k.Touched h ((machine.storeState handler.oldArea passed).write Bus.timer timer) k' := by
  obtain ⟨k₁, ht, hrun⟩ := dispatch_exception hh hx
  generalize hm : machine.storeState handler.oldArea passed = m
  set k₂ : Kernel := { k₁ with machine := m }.modify h ({ · with
    state := m.loadState handler.newArea }) with hk₂
  have ht₂ : k.Touched h m k₂ := (ht.trans (.of_times k₁ h m _ _ _)).modify fun d =>
    ⟨_, d.usedTime, d.quantumTime, rfl⟩
  have hstate : (k₂.processes.get h).state = m.loadState handler.newArea := by
    simp [hk₂, Kernel.modify]
  have hraise : raiseException h c passed k₁ = .ok () k₂ [.passedUp (k₁.pidAt h) c] := by
    unfold raiseException
    rw [Action.look_bind_apply, (ht.alike.handlers h).handler, hhandler]
    dsimp only
    rw [Action.note_bind_apply, enterHandler_fits hfits, ht.machine_eq, hm]
    rfl
  obtain ⟨timer, k', log, hschedule, hkept, ht'⟩ :=
    (hk.congr ht₂.alike.toSameBooks).schedule_touched (ht₂.current.trans hh)
  rw [ht₂.alike.pidAt, hkept, hstate] at hschedule
  refine ⟨timer, k', .passedUp (k₁.pidAt h) c :: log, ?_, hkept.trans hstate, ?_⟩
  · rw [hrun, Action.bind_apply, hraise]
    dsimp only
    rw [hschedule]
    rfl
  · rw [ht₂.machine_eq] at ht'
    exact ht₂.trans ht'

/-! ## Perishing -/

/-- Process `h` has no handler for the class of its exception. It has had its state saved and been
charged, it has been torn down with its descendants, and then it has been decided what runs next. -/
structure Perishes (k : Kernel) (h : Slot) (c : ExceptionClass) (machine : Machine)
    (o : Outcome Kernel Decision) (k' : Kernel) : Prop where
  torn : ∃ k₁ k₂ family, k.Touched h machine k₁ ∧ k₁.TornDown h family k₂ ∧
    o = (schedule k₂).after
      (.unhandled (k.pidAt h) c :: family.map fun g => .terminated (k.pidAt g))
  state : o.state? = some k'
  /-- Exactly the process and its descendants are gone. -/
  used_iff : ∀ g, k'.processes.isUsed g = true ↔
    k.processes.isUsed g = true ∧ ¬ k.processes.Descends g h

theorem discard_eq_ok {α : Type} {x : Action Kernel α} {a : α} {log : List Notice}
    (hx : x k = .ok a k' log) : (discard x : Action Kernel Unit) k = .ok () k' log := by
  show (x >>= fun _ => pure ()) k = _
  rw [Action.bind_apply, hx]
  dsimp only
  rw [Action.pure_apply, after, List.append_nil]

theorem isUsed_of_schedule (hs : (schedule k).state? = some k') (g : Slot) :
    k'.processes.isUsed g = k.processes.isUsed g := by
  obtain ⟨ready, current, hsame⟩ := Ends.of_state? (schedule_books k) hs
  exact hsame.isUsed g

/-- An exception without a handler ends the process and its descendants. -/
theorem dispatch_perishes (hk : k.Accounted) (hb : k.ClockBooks) (hh : k.current = some h)
    (hx : k.exception? vector = some (c, passed, machine))
    (hnone : (k.processes.get h).handler c = none) :
    ∃ k', k.Perishes h c machine (dispatch vector k) k' := by
  obtain ⟨k₁, ht, hrun⟩ := dispatch_exception hh hx
  have hk₁ := hk.congr ht.alike.toSameBooks
  have hused : k₁.processes.isUsed h = true := hk₁.used_of_current (ht.current.trans hh)
  obtain ⟨k₂, hterminate, hk₂, hcleared⟩ := terminate_live hk₁ hused rfl
  have htorn := hcleared.tornDown hk₁ (ht.clockBooks hb) hk₂ hused
  generalize k₁.processes.family maxProcesses h = family at hterminate htorn
  have hlog : (family.map fun g => Notice.terminated (k₁.pidAt g)) =
      family.map fun g => Notice.terminated (k.pidAt g) :=
    List.map_congr_left fun g _ => congrArg Notice.terminated (ht.alike.pidAt g)
  rw [ht.alike.pidAt, hlog] at hterminate
  have hraise : raiseException h c passed k₁ = .ok () k₂
      (.unhandled (k.pidAt h) c :: family.map fun g => .terminated (k.pidAt g)) := by
    have hpid : (k₁.processes.get h).pid = k.pidAt h := ht.alike.pidAt h
    unfold raiseException
    rw [Action.look_bind_apply, (ht.alike.handlers h).handler, hnone]
    dsimp only
    rw [hpid, Action.note_bind_apply, discard_eq_ok hterminate]
    rfl
  have hrest : dispatch vector k = (schedule k₂).after
      (.unhandled (k.pidAt h) c :: family.map fun g => .terminated (k.pidAt g)) := by
    rw [hrun, Action.bind_apply, hraise]
  obtain ⟨k', hs⟩ := exists_state?_schedule k₂
  refine ⟨k', ⟨k₁, k₂, family, ht, htorn, hrest⟩, ?_, fun g => ?_⟩
  · rw [hrest, state?_after, hs]
  · rw [isUsed_of_schedule hs, htorn.used_iff, htorn.mem_iff, ht.alike.isUsed, ht.descends]
    tauto

/-! ## The law -/

/-- The exception of process `h` has gone to its handler. Nothing has changed but the times of the
process, its saved state, the time gathered for the tick, the timer, the handler's old area and, if
a request has been refused, the old area of the program trap. -/
structure PassedUp (k : Kernel) (vector : TrapVector) (h : Slot) (handler : Handler)
    (passed : ProcessorState) (k' : Kernel) : Prop where
  current : k'.current = some h
  stored : k'.machine.loadState handler.oldArea = passed
  entered : (k'.processes.get h).state = k.machine.loadState handler.newArea
  touched : k.Touched h k'.machine k'
  machine : k'.machine = { k.machine with memory := k'.machine.memory }
  word : ∀ a, a ≠ Bus.timer →
    (∀ i < stateWords, Machine.stateAddress handler.oldArea i ≠ a) →
    (k.Refuses vector → ∀ i < stateWords,
      Machine.stateAddress TrapVector.programTrap.oldArea i ≠ a) →
    k'.machine.read a = k.machine.read a

/-- What becomes of an exception of class `c` of the running process `h`. -/
structure PassingUpLaw (k : Kernel) (vector : TrapVector) (h : Slot) (c : ExceptionClass)
    (passed : ProcessorState) : Prop where
  /-- The state that is passed up is that of the trap. -/
  snapshot : ¬ k.Refuses vector → passed = k.machine.loadState vector.oldArea
  /-- A refused request is passed up as a reserved instruction, all else in its state as it is. -/
  refused : k.Refuses vector → passed =
    { k.trapped with cause := Cause.withCode k.trapped.cause .reservedInstruction }
  /-- A handler whose areas are clear of each other and of the registers gets exactly this state,
  and the process goes on with the state in the new area. -/
  handled : ∀ handler, (k.processes.get h).handler c = some handler → handler.Clear →
    (k.Refuses vector → ∀ i < stateWords, ∀ j < stateWords,
      Machine.stateAddress handler.newArea i ≠
        Machine.stateAddress TrapVector.programTrap.oldArea j) →
    ∃ k' log,
      dispatch vector k =
        .ok (.resume (k.pidAt h) (k.machine.loadState handler.newArea)) k' log ∧
      k.PassedUp vector h handler passed k'
  /-- Without a handler exactly the process and its descendants are terminated. -/
  unhandled : (k.processes.get h).handler c = none →
    ∃ machine k', k.Perishes h c machine (dispatch vector k) k'

/-- The machine from which an exception is passed up is that of the trap, unless a request has been
refused. -/
theorem machine_of_exception? (hx : k.exception? vector = some (c, passed, machine)) :
    machine = k.machine ∨ k.Refuses vector ∧ machine = k.refusing := by
  by_cases hr : k.Refuses vector
  · have hv : vector = .sysBreak := by
      cases vector with
      | sysBreak => rfl
      | programTrap | tlb | interrupt => exact hr.elim
    subst hv
    rw [exception?_of_refuses hr] at hx
    obtain ⟨-, hrest⟩ := Prod.mk.inj (Option.some.inj hx)
    exact .inr ⟨hr, (Prod.mk.inj hrest).2.symm⟩
  · exact .inl (snapshot_of_exception? hx hr).2

theorem read_of_exception? (hx : k.exception? vector = some (c, passed, machine)) {a : Word}
    (hne : k.Refuses vector → ∀ i < stateWords,
      Machine.stateAddress TrapVector.programTrap.oldArea i ≠ a) :
    machine.read a = k.machine.read a := by
  rcases machine_of_exception? hx with hm | ⟨hr, hm⟩
  · rw [hm]
  · rw [hm, refusing]
    exact Machine.read_storeState_of_plain (Machine.plain_oldArea .programTrap) _ _ (hne hr)

theorem memory_of_exception? (hx : k.exception? vector = some (c, passed, machine)) :
    machine = { k.machine with memory := machine.memory } := by
  rcases machine_of_exception? hx with hm | ⟨-, hm⟩
  · rw [hm]
  · rw [hm, refusing]
    exact Machine.storeState_eq _ _ _

theorem PassedUp.of_touched {timer : Word} (hh : k.current = some h)
    (hx : k.exception? vector = some (c, passed, machine)) (hclear : handler.Clear)
    (ht : k.Touched h ((machine.storeState handler.oldArea passed).write Bus.timer timer) k')
    (hstate : (k'.processes.get h).state = k.machine.loadState handler.newArea) :
    k.PassedUp vector h handler passed k' where
  current := ht.current.trans hh
  stored := by
    rw [ht.machine_eq, Machine.loadState_setTimer hclear.old]
    exact Machine.loadState_storeState (Machine.plain_of_notInRegisterArea hclear.old) _ _
  entered := hstate
  touched := ht.machine_eq.symm ▸ ht
  machine := by
    rw [ht.machine_eq, Machine.write_eq, Machine.storeState_eq, memory_of_exception? hx]
  word a htimer hold hne := by
    rw [ht.machine_eq, Machine.read_setTimer htimer, Machine.read_storeState_of_plain
      (Machine.plain_of_notInRegisterArea hclear.old) _ _ hold]
    exact read_of_exception? hx hne

/-- An exception that the nucleus does not serve is passed up to the handler of its class, or ends
the process and its descendants. -/
theorem passingUpLaw_of_reachable (hk : k.Reachable) (hh : k.current = some h)
    (hx : k.exception? vector = some (c, passed, machine)) : k.PassingUpLaw vector h c passed where
  snapshot hr := (snapshot_of_exception? hx hr).1
  refused hr := by
    cases vector with
    | sysBreak =>
      rw [exception?_of_refuses hr] at hx
      obtain ⟨-, hrest⟩ := Prod.mk.inj (Option.some.inj hx)
      exact (Prod.mk.inj hrest).1.symm
    | programTrap | tlb | interrupt => exact hr.elim
  handled handler hhandler hclear happart := by
    have hfits : ¬ handler.Overruns := by
      rintro (hold | hnew)
      · exact UInt32.not_lt.2 hclear.oldFits (Machine.stateFits_eq_false_iff.1 hold)
      · exact UInt32.not_lt.2 hclear.newFits (Machine.stateFits_eq_false_iff.1 hnew)
    have hnew : (machine.storeState handler.oldArea passed).loadState handler.newArea =
        k.machine.loadState handler.newArea := by
      refine Machine.loadState_congr fun j hj => ?_
      rw [Machine.read_storeState_of_plain (Machine.plain_of_notInRegisterArea hclear.old) _ _
        fun i hi => hclear.apart i hi j hj]
      exact read_of_exception? hx fun hr i hi heq => happart hr j hj i hi heq.symm
    obtain ⟨timer, k', log, hrun, hstate, ht⟩ :=
      dispatch_enters hk.sound.toAccounted hh hx hhandler hfits
    rw [hnew] at hrun hstate
    exact ⟨k', log, hrun, .of_touched hh hx hclear ht hstate⟩
  unhandled hnone := by
    obtain ⟨k', hperishes⟩ :=
      dispatch_perishes hk.sound.toAccounted hk.clockBooks hh hx hnone
    exact ⟨machine, k', hperishes⟩

/-- The root process has announced a handler for translation faults and meets one. -/
theorem passingUpLaw_of_reachable_fault : ∃ (k k' : Kernel) (log : List Notice), k.Reachable ∧
    k.PassingUpLaw .tlb 0 .tlb (k.machine.loadState TrapVector.tlb.oldArea) ∧
    dispatch .tlb k = .ok (.resume 1 (k.machine.loadState 0x20003000)) k' log ∧
    k'.machine.loadState 0x20002000 = k.machine.loadState TrapVector.tlb.oldArea := by
  obtain ⟨k, hk, htest⟩ := exists_reachable
    (p := fun k => k.current = some 0 ∧ k.pidAt 0 = 1 ∧
      (k.processes.get 0).handler .tlb = some ⟨0x20002000, 0x20003000⟩)
    [.schedule, .deliver (.request 10 0x20002000 0x20003000 0 false)] (by decide +kernel)
  obtain ⟨hh, hpid, hhandler⟩ := of_decide_eq_true htest
  have hlaw : k.PassingUpLaw .tlb 0 .tlb (k.machine.loadState TrapVector.tlb.oldArea) :=
    passingUpLaw_of_reachable hk hh rfl
  have hclear : Handler.Clear ⟨0x20002000, 0x20003000⟩ := by
    constructor <;> decide +kernel
  obtain ⟨k', log, hrun, hpassed⟩ := hlaw.handled _ hhandler hclear False.elim
  rw [hpid] at hrun
  exact ⟨k, k', log, hk, hlaw, hrun, hpassed.stored⟩

end Kernel

end Nucleus
