import Nucleus.Kernel.Trap
import Nucleus.Proofs.Kernel.Interrupt

/-!
# Traps

Handling a trap keeps the invariant, whatever stands in memory. It breaks a check only where a
state of thirty-five words would run past the end of the address space (`Kernel.TrapOverruns`), or
when the pids are used up (`Sound.dispatch`).
-/

namespace Nucleus

/-- One of the areas of a handler does not end before the end of the address space. -/
def Handler.Overruns (handler : Handler) : Prop :=
  Machine.stateFits handler.oldArea = false ∨ Machine.stateFits handler.newArea = false

namespace Kernel

open Outcome

variable {k k' : Kernel} {h : Slot} {c : ExceptionClass} {α : Type} {broken : Prop}

/-- The running process has a handler for a class of exceptions that cannot be entered. -/
def RaiseOverruns (k : Kernel) (c : ExceptionClass) : Prop :=
  ∃ h handler, k.current = some h ∧ (k.processes.get h).handler c = some handler ∧
    handler.Overruns

/-- A request or breakpoint of the running process asks for a state that cannot be read, or raises
an exception that cannot be handled. -/
def RequestOverruns (k : Kernel) (trap : ProcessorState) : Prop :=
  match trap.code? with
  | some .syscall =>
    if trap.fromUserMode then
      if Service.isReserved trap.a0 then k.RaiseOverruns .programTrap
      else k.RaiseOverruns .sysBreak
    else
      match Service.ofTrap? trap with
      | some service => k.current ≠ none ∧ service.Overruns
      | none => k.RaiseOverruns .sysBreak
  | some .breakpoint => k.RaiseOverruns .sysBreak
  | _ => False

/-- Handling a trap would touch a state that runs past the end of the address space. -/
def TrapOverruns (k : Kernel) : TrapVector → Prop
  | .tlb => k.RaiseOverruns .tlb
  | .programTrap => k.RaiseOverruns .programTrap
  | .sysBreak => k.RequestOverruns (k.machine.loadState TrapVector.sysBreak.oldArea)
  | .interrupt => False

/-- How the handling of a trap ends: it keeps the invariant unless it breaks a check, and the
machine halts or is stuck only if it has stopped. -/
def Settles (k : Kernel) (broken : Prop) (o : Outcome Kernel Decision) : Prop :=
  o.Ends
    (fun d k' => (k'.Sound ∧ ¬ broken) ∧ (d = .halt → k'.Stopped ∧ k'.liveCount = 0))
    (fun c k' => (k'.Sound ∧ ¬ broken) ∧ (c = .deadlock → k'.Stopped ∧ k'.liveCount ≠ 0))
    (fun _ => broken ∨ k.lastPid = Word.allOnes)

theorem Sound.settles_schedule (hk : k.Sound) (hbroken : ¬ broken) :
    k'.Settles broken (Kernel.schedule k) :=
  hk.schedule.mono (fun _ _ h => ⟨⟨h.1, hbroken⟩, h.2⟩)
    (fun _ _ h => ⟨⟨h.1, hbroken⟩, fun _ => h.2.2⟩) fun _ => False.elim

/-- After an action that keeps the invariant it is decided what runs next. -/
theorem Keeps.settles {x : Action Kernel α} (hx : k.Keeps broken (x k)) :
    k.Settles broken ((x >>= fun _ => schedule) k) := by
  simp only [Settles, Action.ends_bind]
  refine Ends.mono hx (fun _ k' hk' => ?_) (fun cause k' hk' => ?_) fun _ h => h
  · exact hk'.1.settles_schedule hk'.2
  · exact ⟨hk'.1, fun heq => absurd heq hk'.2⟩

theorem Settles.congr {o : Outcome Kernel Decision} {broken' : Prop}
    (ho : k'.Settles broken' o) (hlast : k'.lastPid = k.lastPid) (hiff : broken' ↔ broken) :
    k.Settles broken o := by
  unfold Settles at ho ⊢
  rwa [hlast, propext hiff] at ho

/-- Nothing happens on a trap without a running process. -/
theorem Sound.settles_noCurrent (hk : k.Sound) (hbroken : ¬ broken) (log : List Notice) :
    k.Settles broken (.fault .noCurrentProcess k log) :=
  ⟨⟨hk, hbroken⟩, Fault.noConfusion⟩

theorem RaiseOverruns.congr (hc : k'.current = k.current)
    (hhandlers : ∀ h, (k.processes.get h).SameHandlers (k'.processes.get h)) :
    k'.RaiseOverruns c ↔ k.RaiseOverruns c := by
  simp only [RaiseOverruns, hc]
  refine exists_congr fun h => ?_
  rw [(hhandlers h).handler]

theorem Alike.raiseOverruns_iff (hk : k.Alike k') : k'.RaiseOverruns c ↔ k.RaiseOverruns c :=
  RaiseOverruns.congr hk.current hk.handlers

/-! ## Exceptions -/

/-- A handler is entered unless one of its areas runs past the end of the address space. -/
theorem Sound.enterHandler (hk : k.Sound) (h : Slot) (handler : Handler) (trap : ProcessorState) :
    k.Keeps handler.Overruns (enterHandler h handler trap k) := by
  unfold Kernel.enterHandler Keeps
  rw [Action.ends_bind]
  cases hold : Machine.stateFits handler.oldArea with
  | false =>
    rw [Action.ends_attempt]
    simp only [Machine.writeState, hold]
    exact .inl (.inl hold)
  | true =>
    refine Action.ends_attempt_ok (by unfold Machine.writeState; rw [if_pos hold]; rfl) ?_
    rw [Action.ends_bind, Action.ends_look, Action.ends_bind, Action.ends_check]
    unfold Machine.readState
    cases hnew : Machine.stateFits handler.newArea with
    | false => exact .inl (.inr hnew)
    | true =>
      rw [if_pos rfl]
      refine ⟨(hk.congr (.setMachine k _)).congr (.setState _ h _), ?_⟩
      rintro (hfits | hfits)
      · exact Bool.noConfusion (hold.symm.trans hfits)
      · exact Bool.noConfusion (hnew.symm.trans hfits)

/-- An exception of the running process goes to its handler or terminates it. -/
theorem Sound.raiseException (hk : k.Sound) (hh : k.current = some h) (c : ExceptionClass)
    (trap : ProcessorState) : k.Keeps (k.RaiseOverruns c) (raiseException h c trap k) := by
  simp only [Kernel.raiseException, Keeps, Action.ends_bind, Action.ends_look]
  cases hhandler : (k.processes.get h).handler c with
  | some handler =>
    have hiff : handler.Overruns ↔ k.RaiseOverruns c := by
      constructor
      · exact fun hover => ⟨h, handler, hh, hhandler, hover⟩
      · rintro ⟨g, other, hg, hother, hover⟩
        obtain rfl := Option.some.inj (hh.symm.trans hg)
        obtain rfl := Option.some.inj (hhandler.symm.trans hother)
        exact hover
    rw [← propext hiff]
    dsimp only
    rw [Action.ends_bind, Action.ends_note]
    exact hk.enterHandler h handler trap
  | none =>
    dsimp only
    rw [Action.ends_bind, Action.ends_note, Action.ends_discard]
    refine (hk.terminate _).ends fun _ k' hk' => ⟨hk'.1, ?_⟩
    rintro ⟨g, other, hg, hother, -⟩
    obtain rfl := Option.some.inj (hh.symm.trans hg)
    exact Option.some_ne_none other (hother.symm.trans hhandler)

/-- The state of the running process is saved and the process charged. -/
def saved (k : Kernel) (h : Slot) (trap : ProcessorState) : Kernel :=
  (k.modify h ({ · with state := trap })).charge

theorem machine_saved (k : Kernel) (h : Slot) (trap : ProcessorState) :
    (k.saved h trap).machine = k.machine := by
  unfold saved Kernel.charge
  split <;> rfl

theorem ends_capture_iff {β : Type} {vector : TrapVector}
    {f : Slot × ProcessorState → Action Kernel β} {ok : β → Kernel → Prop}
    {fault : Fault → Kernel → Prop} {abort : Abort → Prop} :
    ((capture vector >>= f) k).Ends ok fault abort ↔
      match k.current with
      | none => fault .noCurrentProcess k
      | some h => (f (h, k.machine.loadState vector.oldArea)
          (k.saved h (k.machine.loadState vector.oldArea))).Ends ok fault abort := by
  simp only [Kernel.capture, Action.ends_bind, Action.ends_look]
  cases k.current with
  | none => exact Iff.rfl
  | some h => exact Iff.rfl

/-- The trap of a running process is captured; without one nothing happens. -/
theorem ends_capture {β : Type} {vector : TrapVector} {f : Slot × ProcessorState → Action Kernel β}
    {ok : β → Kernel → Prop} {fault : Fault → Kernel → Prop} {abort : Abort → Prop}
    (hnone : k.current = none → fault .noCurrentProcess k)
    (hsome : ∀ h k', k.current = some h → k.Alike k' → k'.machine = k.machine →
      (f (h, k.machine.loadState vector.oldArea) k').Ends ok fault abort) :
    ((capture vector >>= f) k).Ends ok fault abort := by
  rw [ends_capture_iff]
  cases hh : k.current with
  | none => exact hnone hh
  | some h => exact hsome h _ hh (.capture k h _) (k.machine_saved h _)

theorem not_raiseOverruns (hh : k.current = none) : ¬ k.RaiseOverruns c := by
  rintro ⟨h, _, hsome, -⟩
  rw [hh] at hsome
  cases hsome

/-- A trap that is an exception of its class whatever caused it. -/
theorem Sound.captureAndRaise (hk : k.Sound) (vector : TrapVector) (c : ExceptionClass) :
    k.Settles (k.RaiseOverruns c)
      ((capture vector >>= fun (h, trap) =>
        Kernel.raiseException h c trap >>= fun _ => Kernel.schedule) k) := by
  refine ends_capture (fun hh => ?_) fun h k' hh hsame _ => ?_
  · exact hk.settles_noCurrent (not_raiseOverruns hh) []
  · have hcurrent : k'.current = some h := hsame.current.trans hh
    refine Settles.congr ?_ hsame.lastPid hsame.raiseOverruns_iff
    exact ((hk.congr hsame).raiseException hcurrent c _).settles

theorem Sound.handleProgramTrap (hk : k.Sound) :
    k.Settles (k.RaiseOverruns .programTrap) (handleProgramTrap k) :=
  hk.captureAndRaise .programTrap .programTrap

theorem Sound.handleTlb (hk : k.Sound) : k.Settles (k.RaiseOverruns .tlb) (handleTlb k) :=
  hk.captureAndRaise .tlb .tlb

/-! ## Requests -/

theorem Sound.handleRequest (hk : k.Sound) (hh : k.current = some h) (trap : ProcessorState) :
    k.Settles
      (match Service.ofTrap? trap with
        | some service => k.current ≠ none ∧ service.Overruns
        | none => k.RaiseOverruns .sysBreak)
      (handleRequest h trap k) := by
  unfold Kernel.handleRequest
  cases Service.ofTrap? trap with
  | some service =>
    have hne : k.current ≠ none := hh ▸ Option.some_ne_none h
    exact Settles.congr (hk.serve hh service).settles rfl (and_iff_right hne).symm
  | none => exact (hk.raiseException hh .sysBreak trap).settles

theorem Sound.handleUserRequest (hk : k.Sound) (hh : k.current = some h) (trap : ProcessorState) :
    k.Settles
      (if Service.isReserved trap.a0 then k.RaiseOverruns .programTrap
        else k.RaiseOverruns .sysBreak)
      (handleUserRequest h trap k) := by
  unfold Kernel.handleUserRequest
  split
  · unfold Settles
    rw [Action.ends_bind, Action.ends_change]
    have hsame := Alike.setMachine k
      (k.machine.storeState TrapVector.programTrap.oldArea
        { trap with cause := Cause.withCode trap.cause .reservedInstruction })
    exact Settles.congr (hk.congr hsame).handleProgramTrap rfl hsame.raiseOverruns_iff
  · exact (hk.raiseException hh .sysBreak trap).settles

theorem Alike.requestOverruns_iff (hk : k.Alike k') (trap : ProcessorState) :
    k'.RequestOverruns trap ↔ k.RequestOverruns trap := by
  have hraise : ∀ c, k'.RaiseOverruns c = k.RaiseOverruns c := fun c =>
    propext hk.raiseOverruns_iff
  unfold RequestOverruns
  simp only [hraise, hk.current]

theorem not_requestOverruns (hh : k.current = none) (trap : ProcessorState) :
    ¬ k.RequestOverruns trap := by
  unfold RequestOverruns
  split
  · split
    · split
      · exact not_raiseOverruns hh
      · exact not_raiseOverruns hh
    · split
      · exact fun hand => hand.1 hh
      · exact not_raiseOverruns hh
  · exact not_raiseOverruns hh
  · exact fun h => h

theorem Sound.handleSysBreak (hk : k.Sound) :
    k.Settles (k.TrapOverruns .sysBreak) (handleSysBreak k) := by
  refine ends_capture (fun hh => ?_) fun h k₁ hh hsame _ => ?_
  · exact hk.settles_noCurrent (not_requestOverruns hh _) []
  · unfold TrapOverruns
    dsimp only
    rw [Action.ends_bind, Action.ends_change]
    generalize k.machine.loadState TrapVector.sysBreak.oldArea = trap
    have hskip : k₁.Alike (k₁.modify h (·.skipInstruction)) :=
      .modify (fun _ => ⟨rfl, rfl, rfl, rfl, rfl⟩) fun _ => ⟨rfl, rfl⟩
    have hsame := hsame.trans hskip
    have hcurrent := hsame.current.trans hh
    have hk₂ := hk.congr hsame
    refine Settles.congr ?_ hsame.lastPid (hsame.requestOverruns_iff trap)
    unfold RequestOverruns
    cases trap.code? with
    | none => exact ⟨⟨hk₂, fun h => h⟩, Fault.noConfusion⟩
    | some code =>
      cases code with
      | syscall =>
        dsimp only
        split
        · exact hk₂.handleUserRequest hcurrent trap
        · exact hk₂.handleRequest hcurrent trap
      | breakpoint => exact (hk₂.raiseException hcurrent .sysBreak trap).settles
      | _ => exact ⟨⟨hk₂, fun h => h⟩, Fault.noConfusion⟩

/-- Handling a trap keeps the invariant, and breaks a check only where a state would run past the
end of the address space or when the pids are used up. -/
theorem Sound.dispatch (hk : k.Sound) (vector : TrapVector) :
    k.Settles (k.TrapOverruns vector) (dispatch vector k) := by
  cases vector with
  | tlb => exact hk.handleTlb
  | programTrap => exact hk.handleProgramTrap
  | sysBreak => exact hk.handleSysBreak
  | interrupt =>
    refine steady_sound.handleInterrupt hk fun k' hk' => ?_
    refine hk'.schedule.mono (fun _ _ h => ?_) (fun _ _ h => ?_) fun _ => False.elim
    · exact ⟨⟨h.1, fun h => h⟩, h.2⟩
    · exact ⟨⟨h.1, fun h => h⟩, fun _ => h.2.2⟩

end Kernel

end Nucleus
