import Nucleus.Kernel.Trap
import Nucleus.Proofs.Kernel.Blocking
import Nucleus.Proofs.Kernel.Refund
import Nucleus.Proofs.Kernel.Service

/-!
# What uses a semaphore

A service or a completed device uses at most one semaphore (`Service.use?`,
`Kernel.interruptUse?`). An action has its `Effect` on a semaphore: the use acts on the view of the
one that is used, and any other loses waiters at most. This module proves it of the services and of
what interrupts are served for.
-/

namespace Nucleus

/-- The fault reports that a table of fixed size is full. -/
def Fault.IsExhaustion (cause : Fault) : Prop :=
  cause = .semaphorePoolExhausted ∨ cause = .processPoolExhausted

/-- The semaphore that a service uses, and how. -/
def Service.use? : Service → Option (SemaphoreId × Use)
  | signal address => some (.user address, .give)
  | wait address => some (.user address, .take)
  | waitClock => some (.clock, .take)
  | waitDevice line unit read =>
    ((DeviceFamily.ofLine? line read).bind (Device.ofNumber? · unit)).map (.device ·, .take)
  | create _ | terminate _ | pid | usedTime | parentPid | announce _ _ => none

namespace Kernel

open Outcome

variable {k k' k'' : Kernel} {h caller : Slot} {id : SemaphoreId} {u : Use}
  {use : Option (SemaphoreId × Use)} {α : Type}

/-- The service that the running process requests, by the trap in the old area of its vector. -/
def service? (k : Kernel) : Option Service :=
  let trap := k.machine.loadState TrapVector.sysBreak.oldArea
  if k.current ≠ none ∧ trap.code? = some .syscall ∧ trap.fromUserMode = false then
    Service.ofTrap? trap
  else none

/-- The completed device that is served for an interrupt source. -/
def completed? (k : Kernel) : InterruptSource → Option Device
  | .device family =>
    (lowestRaised (k.machine.read (bitmapOf family.line))).map (⟨family, ·⟩)
  | .terminal =>
    (lowestRaised (k.machine.read (bitmapOf Cause.Line.terminal))).bind fun unit =>
      if k.machine.hasCompleted ⟨.terminalTransmit, unit⟩ then some ⟨.terminalTransmit, unit⟩
      else if k.machine.hasCompleted ⟨.terminalReceive, unit⟩ then some ⟨.terminalReceive, unit⟩
      else none
  | .timer | .stray => none

/-- The semaphore that is used by serving an interrupt source, and how. -/
def interruptUse? (k : Kernel) (source : InterruptSource) : Option (SemaphoreId × Use) :=
  if source = .timer then if k.gatherTick.tickIsDue then some (.clock, .tick) else none
  else (k.completed? source).map (.device ·, .give)

/-- What an action that makes a use of a semaphore, or none, does to each of them. -/
structure Effect (id : SemaphoreId) (use : Option (SemaphoreId × Use)) (k k' : Kernel) : Prop where
  used : ∀ u, use = some (id, u) → k'.view id = u.act id.isSoft (k.view id)
  unused : (∀ u, use ≠ some (id, u)) → (k.view id).Thinned id.refunds (k'.view id)

namespace Effect

theorem of_thinned (h : (k.view id).Thinned id.refunds (k'.view id)) : Effect id none k k' :=
  ⟨nofun, fun _ => h⟩

theorem of_untouched (h : k.Untouched id k') : Effect id none k k' :=
  of_thinned (.of_eq h.value h.waiting)

/-- The semaphore that is used. -/
theorem of_act (h : k'.view id = u.act id.isSoft (k.view id)) :
    Effect id (some (id, u)) k k' := by
  refine ⟨fun u' heq => ?_, fun hne => absurd rfl (hne u)⟩
  obtain rfl := (Prod.mk.inj (Option.some.inj heq)).2
  exact h

/-- Another semaphore than the one that is used. -/
theorem of_ne {other : SemaphoreId} (hne : other ≠ id) (h : k.Untouched id k') :
    Effect id (some (other, u)) k k' := by
  refine ⟨fun u' heq => ?_, fun _ => .of_eq h.value h.waiting⟩
  exact absurd (Prod.mk.inj (Option.some.inj heq)).1 hne

/-- An effect depends on the views before and after. -/
theorem congr {k₀ k₁ : Kernel} (h : Effect id use k k') (hk : k.view id = k₀.view id)
    (hk' : k₁.view id = k'.view id) : Effect id use k₀ k₁ := by
  refine ⟨fun u heq => ?_, fun hne => ?_⟩
  · rw [hk', h.used u heq, hk]
  · rw [hk', ← hk]
    exact h.unused hne

end Effect

/-- An action has the effects of a use on a semaphore. It can stop early only if it makes no use,
and no table of fixed size is ever full. -/
def Does (k : Kernel) (id : SemaphoreId) (use : Option (SemaphoreId × Use))
    (o : Outcome Kernel α) : Prop :=
  o.Ends (fun _ k' => Effect id use k k')
    (fun c k' => (Effect id use k k' ∧ use = none) ∧ ¬ c.IsExhaustion) (fun _ => use = none)

theorem Does.of_finishes {o : Outcome Kernel α} (h : o.Finishes fun _ k' => Effect id use k k') :
    k.Does id use o :=
  h.ends fun _ _ h => h

/-! ## Services -/

/-- A unit has been given, and the oldest waiter is released. -/
theorem wakeNext_effect (hk : k.Accounted) (hid : id.IsOrdinary) (other : SemaphoreId) :
    (wakeNext other (k.add other 1)).Finishes fun _ k' =>
      Effect id (some (other, .give)) k k' := by
  have hadd : (k.add other 1).Accounted := hk.congr (Alike.add k other 1).toSameBooks
  by_cases heq : other = id
  · subst heq
    refine (wakeNext_view hadd other).mono fun _ k' hk' => .of_act ?_
    rw [hk'.2.2.2, view_add hid, if_pos rfl]
    rfl
  · refine (wakeNext_untouched hadd heq).mono fun _ k' hk' => .of_ne heq ?_
    exact (Untouched.add hid heq k 1).trans hk'.2

/-- A unit is taken, or the running process blocks. -/
theorem acquire_effect (hk : k.Accounted) (hid : id.IsOrdinary) (hh : k.current = some h)
    (other : SemaphoreId) :
    (acquire other other.waitKind k).Finishes fun _ k' =>
      Effect id (some (other, .take)) k k' := by
  by_cases heq : other = id
  · subst heq
    exact (acquire_view hk hid hh).mono fun _ _ => .of_act
  · exact (acquire_untouched hk hid hh heq).mono fun _ _ => .of_ne heq

theorem view_giveResult (k : Kernel) (h : Slot) (value : Word) (id : SemaphoreId) :
    (k.giveResult h value).view id = k.view id :=
  view_modify (fun _ => ⟨rfl, rfl, rfl, rfl, rfl⟩) k h id

theorem awaitDevice_does (hk : k.Accounted) (hid : id.IsOrdinary) (hh : k.current = some caller)
    (line unit : Word) (read : Bool) :
    k.Does id (Service.waitDevice line unit read).use? (awaitDevice caller line unit read k) := by
  simp only [awaitDevice, Service.use?]
  cases (DeviceFamily.ofLine? line read).bind (Device.ofNumber? · unit) with
  | none =>
    refine ⟨⟨.of_untouched (.refl id k), rfl⟩, ?_⟩
    rintro (heq | heq) <;> cases heq
  | some d =>
    refine .of_finishes (Action.ends_bind.2 ?_)
    refine (acquire_effect hk hid hh (.device d)).mono fun went k' hk' => ?_
    cases went with
    | true => exact hk'.congr rfl (view_giveResult k' caller _ id)
    | false => exact hk'

/-- Creating a process leaves all semaphores alone. -/
theorem create_untouched (hk : k.Sound) (id : SemaphoreId) (state : ProcessorState)
    (parent : Option Slot) (hparent : ∀ p, parent = some p → k.processes.isUsed p = true) :
    (create state parent k).Ends (fun result k' => k.Untouched id k' ∧ k.CreateResult result k')
      (fun _ _ => False) (fun _ => k.lastPid = Word.allOnes) := by
  have hends := Ends.and_always (hk.create state parent hparent) (create_sameWorld state parent k)
  refine hends.mono ?_ (fun _ _ h => h.1) fun _ h => h
  rintro result k' ⟨⟨-, hresult⟩, hw⟩
  refine ⟨⟨hw.value id, ?_⟩, hresult⟩
  rcases hresult with ⟨-, rfl, -⟩ | ⟨h, -, he⟩
  · rfl
  · rw [he.waits]

theorem serveCreate_does (hk : k.Sound) (hh : k.current = some caller) (stateAddress : Word) :
    k.Does id none (serveCreate caller stateAddress k) := by
  unfold serveCreate Does
  rw [Action.ends_bind, Action.ends_look, Action.ends_bind, Action.ends_check]
  cases Machine.readState k.machine stateAddress with
  | error cause => rfl
  | ok state =>
    dsimp only
    rw [Action.ends_bind]
    have hcreate := create_untouched hk id state (some caller) (hk.used_of_caller hh)
    refine hcreate.mono ?_ (fun _ _ => False.elim) fun _ _ => rfl
    rintro result k' ⟨hk', -⟩
    have hgive : ∀ value, Effect id none k (k'.giveResult caller value) := fun value =>
      .of_untouched (hk'.trans (.of_view (view_giveResult k' caller value id)))
    cases result with
    | none =>
      rw [Action.ends_bind, Action.ends_note]
      exact hgive _
    | some child => exact hgive _

theorem serveTerminate_effect (hk : k.Accounted) (hid : id.IsOrdinary) (caller : Slot) (pid : Pid) :
    (serveTerminate caller pid k).Finishes fun _ k' => Effect id none k k' := by
  simp only [serveTerminate, Finishes, Action.ends_bind, Action.ends_look]
  refine (terminate_thinned hk hid _).mono fun found k' hk' => ?_
  rw [Action.ends_change]
  split
  · exact (Effect.of_thinned hk').congr rfl (view_giveResult k' caller _ id)
  · exact .of_thinned hk'

theorem announceHandler_does (hk : k.Accounted) (hid : id.IsOrdinary) (c : ExceptionClass)
    (handler : Handler) : k.Does id none (announceHandler caller c handler k) := by
  have hcount : ∀ n, view (k.modify caller fun d =>
      { d with announced := d.announced.set c.place n }) id = k.view id := fun n =>
    (sameBooks_announced k caller _).view rfl
  unfold announceHandler Does
  rw [Action.ends_bind, Action.ends_look, Action.ends_bind, Action.ends_check]
  cases Word.succ ((k.processes.get caller).announced.get c.place) with
  | error cause => rfl
  | ok announced =>
    dsimp only
    rw [Action.ends_bind, Action.ends_change]
    split
    · rw [Action.ends_bind, Action.ends_note, Action.ends_discard]
      have hsame := sameBooks_announced k caller fun d => d.announced.set c.place announced
      have hbooks := hk.congr hsame
      refine (terminate_thinned hbooks hid _).ends fun found k' hk' => ?_
      exact (Effect.of_thinned hk').congr (hcount announced) rfl
    · refine .of_untouched (.of_view ?_)
      exact (SameBooks.view (sameBooks_handlers _ caller _) rfl).trans (hcount announced)

/-- A service has the effects of its use. -/
theorem serve_does (hk : k.Sound) (hid : id.IsOrdinary) (hh : k.current = some caller)
    (service : Service) : k.Does id service.use? (serve caller service k) := by
  have hresult : ∀ value, Effect id none k (k.giveResult caller value) := fun value =>
    .of_untouched (.of_view (view_giveResult k caller value id))
  cases service with
  | create stateAddress => exact serveCreate_does hk hh stateAddress
  | terminate pid => exact .of_finishes (serveTerminate_effect hk.toAccounted hid caller pid)
  | signal address =>
    have hwake := wakeNext_effect hk.toAccounted hid (.user address)
    exact .of_finishes (Action.ends_bind.2 (Action.ends_discard.2 hwake))
  | wait address =>
    have hacquire := acquire_effect hk.toAccounted hid hh (.user address)
    exact .of_finishes (Action.ends_discard.2 hacquire)
  | pid => exact hresult _
  | usedTime =>
    refine .of_untouched (.of_view ?_)
    exact (view_giveResult k.charge caller _ id).trans (view_charge id k)
  | waitClock =>
    exact .of_finishes (Action.ends_discard.2 (acquire_effect hk.toAccounted hid hh .clock))
  | waitDevice line unit read => exact awaitDevice_does hk.toAccounted hid hh line unit read
  | parentPid => exact hresult _
  | announce c handler => exact announceHandler_does hk.toAccounted hid c handler

end Kernel

end Nucleus
