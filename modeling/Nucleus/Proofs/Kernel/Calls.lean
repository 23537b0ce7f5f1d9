import Nucleus.Proofs.Kernel.InterruptUses
import Nucleus.Proofs.Kernel.Reachable

/-!
# What calls do to semaphores

Every call of the nucleus makes at most one use of one semaphore (`Call.use?`), which can be told
before it happens. It acts on the view of that semaphore, and any other semaphore only loses waiters
that are terminated (`Sound.call_performs`). This needs the word of a user semaphore to be an
ordinary one that no handler of a process stores anything in (`Kernel.Spares`).
-/

namespace Nucleus

/-- The state that a handler stores does not cover the word of a semaphore. -/
def Handler.Spares (handler : Handler) : SemaphoreId → Prop
  | .user address => ∀ i < stateWords, Machine.stateAddress handler.oldArea i ≠ address
  | .device _ | .clock => True

instance (handler : Handler) (id : SemaphoreId) : Decidable (handler.Spares id) :=
  match id with
  | .user _ => inferInstanceAs (Decidable (∀ i < stateWords, _))
  | .device _ | .clock => inferInstanceAs (Decidable True)

namespace Kernel

open Outcome

variable {k k' : Kernel} {h : Slot} {id : SemaphoreId} {use : Option (SemaphoreId × Use)}
  {α : Type}

/-- No live process has a handler that stores anything in the word of a semaphore. -/
def Spares (k : Kernel) (id : SemaphoreId) : Prop :=
  ∀ h, k.processes.isUsed h = true → ∀ c : Fin ExceptionClass.count,
    ∀ handler ∈ (k.processes.get h).handlers.get c, handler.Spares id

instance (k : Kernel) (id : SemaphoreId) : Decidable (k.Spares id) :=
  inferInstanceAs (Decidable (∀ h, k.processes.isUsed h = true → ∀ _, _))

theorem Spares.congr (hspares : k.Spares id) (hk : k.Alike k') : k'.Spares id := by
  intro h hh c handler hmem
  rw [hk.isUsed] at hh
  rw [(hk.handlers h).handlers] at hmem
  exact hspares h hh c handler hmem

theorem spares_of_soft (k : Kernel) (hid : ∀ address, id ≠ .user address) : k.Spares id := by
  intro h _ c handler _
  cases id with
  | user address => exact absurd rfl (hid address)
  | device d => trivial
  | clock => trivial

theorem spares_device (k : Kernel) (d : Device) : k.Spares (.device d) :=
  k.spares_of_soft fun _ => SemaphoreId.noConfusion

/-! ## Uses -/

/-- The semaphore that is used by handling a trap, and how. -/
def trapUse? (k : Kernel) : TrapVector → Option (SemaphoreId × Use)
  | .sysBreak => k.service?.bind Service.use?
  | .interrupt =>
    k.interruptUse? (.ofCause (k.machine.loadState TrapVector.interrupt.oldArea).cause)
  | .programTrap | .tlb => none

/-- The trap that a call handles, and the kernel that handles it. -/
def Call.trap? : Call → Kernel → Option (TrapVector × Kernel)
  | deliver event, k =>
    match k.machine.trap event (k.currentDescriptor.map (·.state)) with
    | .ok (vector, machine) => some (vector, { k with machine })
    | .error _ => none
  | dispatch vector, k => some (vector, k)
  | schedule, _ => none

/-- The semaphore that a call uses, and how. -/
def Call.use? (call : Call) (k : Kernel) : Option (SemaphoreId × Use) :=
  (call.trap? k).bind fun (vector, k) => k.trapUse? vector

/-- A call that handles a trap does what its handling does. -/
theorem Call.run_eq_of_trap? {call : Call} {vector : TrapVector} {k₁ : Kernel}
    (h : call.trap? k = some (vector, k₁)) :
    (∃ machine, k₁ = { k with machine }) ∧ call.run k = Kernel.dispatch vector k₁ := by
  cases call with
  | schedule => cases h
  | dispatch vector =>
    cases h
    exact ⟨⟨k.machine, rfl⟩, rfl⟩
  | deliver event =>
    unfold trap? at h
    dsimp only at h
    split at h
    · rename_i vector machine htrap
      cases h
      refine ⟨⟨machine, rfl⟩, ?_⟩
      show Kernel.deliver event k = _
      rw [deliver_apply, htrap]
    · cases h

/-- A call that handles no trap only decides what runs next, or aborts. -/
theorem Call.run_of_no_trap {call : Call} (h : call.trap? k = none) :
    call = .schedule ∨ ∃ cause, call.run k = .abort cause := by
  cases call with
  | schedule => exact .inl rfl
  | dispatch vector => cases h
  | deliver event =>
    right
    unfold trap? at h
    dsimp only at h
    split at h
    · cases h
    · rename_i cause htrap
      refine ⟨cause, ?_⟩
      show Kernel.deliver event k = _
      rw [deliver_apply, htrap]

theorem Call.trap?_deliver {event : Event} {vector : TrapVector} {machine : Machine}
    (h : k.machine.trap event (k.currentDescriptor.map (·.state)) = .ok (vector, machine)) :
    (deliver event).trap? k = some (vector, { k with machine }) := by
  simp only [trap?, h]

theorem Call.use?_deliver_error {event : Event} {cause : Abort}
    (h : k.machine.trap event (k.currentDescriptor.map (·.state)) = .error cause) :
    (deliver event).use? k = none := by
  simp only [use?, trap?, h]
  rfl

/-- A call has the effects of a use on a semaphore. After a use the processor is given to the first
process that can run. The call can break a check only if it makes no use, and no table of fixed size
is ever full. -/
def Performs (k : Kernel) (id : SemaphoreId) (use : Option (SemaphoreId × Use))
    (o : Outcome Kernel Decision) : Prop :=
  o.Ends (fun _ k' => Effect id use k k' ∧ (use ≠ none → k'.Dispatched))
    (fun c k' => (Effect id use k k' ∧ (use ≠ none → k'.Dispatched)) ∧ ¬ c.IsExhaustion)
    (fun _ => use = none)

theorem Performs.congr {o : Outcome Kernel Decision} (ho : k'.Performs id use o)
    (hk : k'.view id = k.view id) : k.Performs id use o :=
  Ends.mono ho (fun _ _ h => ⟨h.1.congr hk rfl, h.2⟩)
    (fun _ _ h => ⟨⟨h.1.1.congr hk rfl, h.1.2⟩, h.2⟩) fun _ h => h

/-- A call that makes a use leaves a state. -/
theorem Performs.exists_state? {o : Outcome Kernel Decision} (ho : k.Performs id use o)
    (huse : use ≠ none) : ∃ k', o.state? = some k' ∧ Effect id use k k' ∧ k'.Dispatched :=
  Ends.exists_state? (Ends.mono ho (fun _ _ h => ⟨h.1, h.2 huse⟩)
    (fun _ _ h => ⟨h.1.1, h.1.2 huse⟩) fun _ h => huse h)

theorem Performs.effect {o : Outcome Kernel Decision} (ho : k.Performs id use o)
    (hs : o.state? = some k') : Effect id use k k' :=
  Ends.of_state? (Ends.mono ho (fun _ _ h => h.1) (fun _ _ h => h.1.1) fun _ h => h) hs

theorem not_isExhaustion_deadlock : ¬ Fault.deadlock.IsExhaustion := by
  rintro (heq | heq) <;> cases heq

/-- After an action it is decided what runs next. -/
theorem Does.performs {x : Action Kernel α} (hx : k.Does id use (x k)) (hid : id.IsOrdinary) :
    k.Performs id use ((x >>= fun _ => schedule) k) := by
  unfold Performs
  rw [Action.ends_bind]
  refine Ends.mono hx (fun _ k₁ hk₁ => ?_) (fun c k₁ hk₁ => ?_) fun _ h => h
  · refine (schedule_view hid k₁).mono ?_ ?_ fun _ => False.elim
    · rintro _ k' ⟨hview, hdispatched⟩
      exact ⟨hk₁.congr rfl hview, fun _ => hdispatched⟩
    · rintro c k' ⟨⟨hview, hdispatched⟩, rfl⟩
      exact ⟨⟨hk₁.congr rfl hview, fun _ => hdispatched⟩, not_isExhaustion_deadlock⟩
  · exact ⟨⟨hk₁.1.1, fun hne => absurd hk₁.1.2 hne⟩, hk₁.2⟩

theorem schedule_performs (hid : id.IsOrdinary) (k : Kernel) : k.Performs id none (schedule k) := by
  have hdoes : k.Does id none ((pure () : Action Kernel Unit) k) :=
    Effect.of_untouched (.refl id k)
  have h := hdoes.performs hid
  rwa [Action.pure_bind_apply] at h

/-- A call that stops at once for another reason than a full table. -/
theorem performs_fail {cause : Fault} (hcause : ¬ cause.IsExhaustion) :
    k.Performs id none ((Action.fail cause : Action Kernel Decision) k) :=
  ⟨⟨.of_untouched (.refl id k), fun hne => absurd rfl hne⟩, hcause⟩

/-! ## Exceptions -/

theorem value_writeState {address : Word} {s : ProcessorState} {machine : Machine}
    (hid : id.IsOrdinary) (hne : ∀ own, id = .user own →
      ∀ i < stateWords, Machine.stateAddress address i ≠ own)
    (hwrite : k.machine.writeState address s = .ok machine) :
    value { k with machine } id = k.value id := by
  unfold Machine.writeState at hwrite
  split at hwrite
  · cases hwrite
    apply value_setMachine
    intro own heq
    subst heq
    exact Machine.read_storeState hid.notRegister k.machine s (hne own rfl)
  · cases hwrite

/-- A handler that is entered leaves the semaphore alone if it spares it. -/
theorem enterHandler_does (hid : id.IsOrdinary) {handler : Handler} (hspares : handler.Spares id)
    (h : Slot) (trap : ProcessorState) : k.Does id none (enterHandler h handler trap k) := by
  unfold enterHandler Does
  rw [Action.ends_bind, Action.ends_attempt]
  cases hwrite : k.machine.writeState handler.oldArea trap with
  | error cause => rfl
  | ok machine =>
    have hvalue := value_writeState (k := k) hid (fun own heq => by
      subst heq
      exact hspares) hwrite
    change Ends (_ : Outcome Kernel Unit) _ _ _
    rw [Action.ends_bind, Action.ends_look, Action.ends_bind, Action.ends_check]
    cases Machine.readState machine handler.newArea with
    | error cause => rfl
    | ok state =>
      refine .of_untouched (.of_view ?_)
      exact (view_modify (fun _ => ⟨rfl, rfl, rfl, rfl, rfl⟩) _ h id).trans
        ((Alike.setMachine k machine).view hvalue)

theorem raiseException_does (hk : k.Accounted) (hid : id.IsOrdinary) (hspares : k.Spares id)
    (hh : k.current = some h) (c : ExceptionClass) (trap : ProcessorState) :
    k.Does id none (raiseException h c trap k) := by
  unfold raiseException Does
  rw [Action.ends_bind, Action.ends_look]
  cases hhandler : (k.processes.get h).handler c with
  | some handler =>
    dsimp only
    rw [Action.ends_bind, Action.ends_note]
    exact enterHandler_does hid (hspares h (hk.used_of_current hh) c.place handler hhandler) h trap
  | none =>
    dsimp only
    rw [Action.ends_bind, Action.ends_note, Action.ends_discard]
    exact (terminate_thinned hk hid _).ends fun _ _ => .of_thinned

/-! ## Traps -/

theorem view_saved (k : Kernel) (h : Slot) (trap : ProcessorState) (id : SemaphoreId) :
    (k.saved h trap).view id = k.view id :=
  (view_charge id _).trans (view_modify (fun _ => ⟨rfl, rfl, rfl, rfl, rfl⟩) k h id)

theorem not_isExhaustion_noCurrent : ¬ Fault.noCurrentProcess.IsExhaustion := by
  rintro (heq | heq) <;> cases heq

theorem captureAndRaise_performs (hk : k.Accounted) (hid : id.IsOrdinary) (hspares : k.Spares id)
    (vector : TrapVector) (c : ExceptionClass) :
    k.Performs id none
      ((capture vector >>= fun (h, trap) =>
        raiseException h c trap >>= fun _ => schedule) k) := by
  unfold Performs
  rw [ends_capture_iff]
  cases hh : k.current with
  | none => exact performs_fail not_isExhaustion_noCurrent
  | some h =>
    have hsame : k.Alike (k.saved h (k.machine.loadState vector.oldArea)) := .capture k h _
    have hraise := raiseException_does (hk.congr hsame.toSameBooks) hid (hspares.congr hsame)
      (hsame.current.trans hh) c (k.machine.loadState vector.oldArea)
    exact (hraise.performs hid).congr (view_saved k h _ id)

theorem handleUserRequest_performs (hk : k.Accounted) (hid : id.IsOrdinary)
    (hspares : k.Spares id) (hh : k.current = some h) (trap : ProcessorState) :
    k.Performs id none (handleUserRequest h trap k) := by
  unfold handleUserRequest
  split
  · unfold Performs
    rw [Action.ends_bind, Action.ends_change]
    set machine := k.machine.storeState TrapVector.programTrap.oldArea
      { trap with cause := Cause.withCode trap.cause .reservedInstruction }
    have hvalue : value { k with machine } id = k.value id := by
      apply value_setMachine
      intro own heq
      subst heq
      exact Machine.read_storeState hid.notRegister k.machine _ (hid.stateAddress_oldArea_ne _)
    have hsame := Alike.setMachine k machine
    exact (captureAndRaise_performs (hk.congr hsame.toSameBooks) hid (hspares.congr hsame)
      .programTrap .programTrap).congr (hsame.view hvalue)
  · exact (raiseException_does hk hid hspares hh .sysBreak trap).performs hid

theorem handleRequest_performs (hk : k.Sound) (hid : id.IsOrdinary) (hspares : k.Spares id)
    (hh : k.current = some h) (trap : ProcessorState) :
    k.Performs id ((Service.ofTrap? trap).bind Service.use?) (handleRequest h trap k) := by
  unfold handleRequest
  cases Service.ofTrap? trap with
  | some service => exact (serve_does hk hid hh service).performs hid
  | none => exact (raiseException_does hk.toAccounted hid hspares hh .sysBreak trap).performs hid

theorem handleSysBreak_performs (hk : k.Sound) (hid : id.IsOrdinary) (hspares : k.Spares id) :
    k.Performs id (k.trapUse? .sysBreak) (handleSysBreak k) := by
  unfold handleSysBreak Performs
  rw [ends_capture_iff]
  cases hh : k.current with
  | none =>
    have huse : k.trapUse? .sysBreak = none := by simp [trapUse?, service?, hh]
    rw [huse]
    exact performs_fail not_isExhaustion_noCurrent
  | some h =>
    have huse : k.trapUse? .sysBreak =
        (if (k.machine.loadState TrapVector.sysBreak.oldArea).code? = some .syscall ∧
            (k.machine.loadState TrapVector.sysBreak.oldArea).fromUserMode = false
          then Service.ofTrap? (k.machine.loadState TrapVector.sysBreak.oldArea)
          else none).bind Service.use? := by
      simp [trapUse?, service?, hh]
    rw [huse]
    dsimp only
    generalize k.machine.loadState TrapVector.sysBreak.oldArea = trap
    rw [Action.ends_bind, Action.ends_change]
    have hsame : k.Alike ((k.saved h trap).modify h (·.skipInstruction)) :=
      (Alike.capture k h trap).trans
        (.modify (fun _ => ⟨rfl, rfl, rfl, rfl, rfl⟩) fun _ => ⟨rfl, rfl⟩)
    have hview : ((k.saved h trap).modify h (·.skipInstruction)).view id = k.view id :=
      (view_modify (fun _ => ⟨rfl, rfl, rfl, rfl, rfl⟩) _ h id).trans (view_saved k h trap id)
    generalize (k.saved h trap).modify h (·.skipInstruction) = k₁ at hsame hview
    have hk₁ := hk.congr hsame
    have hspares₁ := hspares.congr hsame
    have hh₁ : k₁.current = some h := hsame.current.trans hh
    have hother : ∀ code, ¬ (Fault.unexpectedException code).IsExhaustion := by
      rintro code (heq | heq) <;> cases heq
    refine Performs.congr ?_ hview
    cases hcode : trap.code? with
    | none =>
      rw [if_neg nofun]
      exact performs_fail (hother _)
    | some code =>
      cases code with
      | syscall =>
        dsimp only
        cases huser : trap.fromUserMode with
        | true =>
          rw [if_neg nofun, if_pos rfl]
          exact handleUserRequest_performs hk₁.toAccounted hid hspares₁ hh₁ trap
        | false =>
          rw [if_pos ⟨rfl, rfl⟩, if_neg Bool.false_ne_true]
          exact handleRequest_performs hk₁ hid hspares₁ hh₁ trap
      | breakpoint =>
        rw [if_neg nofun]
        exact (raiseException_does hk₁.toAccounted hid hspares₁ hh₁ .sysBreak trap).performs hid
      | _ =>
        rw [if_neg nofun]
        exact performs_fail (hother _)

/-! ## Interrupts -/

/-- What an interrupt is served for does not depend on the account of the running process. -/
theorem interruptUse?_saved (k : Kernel) (h : Slot) (trap : ProcessorState)
    (source : InterruptSource) :
    (k.saved h trap).interruptUse? source = k.interruptUse? source := by
  have hdue : (k.saved h trap).gatherTick.tickIsDue = k.gatherTick.tickIsDue := by
    unfold saved charge
    split <;> rfl
  have hdevice : (k.saved h trap).completed? source = k.completed? source := by
    cases source <;> simp only [completed?, machine_saved]
  simp only [interruptUse?, hdue, hdevice]

theorem handleInterrupt_performs (hk : k.Accounted) (hid : id.IsOrdinary) :
    k.Performs id (k.trapUse? .interrupt) (handleInterrupt k) := by
  have hserve : ∀ {k₁ : Kernel}, k₁.Accounted → ∀ cause, k₁.Performs id
      (k₁.interruptUse? (.ofCause cause)) ((serveInterrupt cause >>= fun _ => schedule) k₁) :=
    fun hk₁ cause => (Does.of_finishes (serveInterrupt_effect hk₁ hid cause)).performs hid
  unfold handleInterrupt Performs
  rw [Action.ends_bind, Action.ends_look, Action.ends_bind, Action.ends_change]
  cases hh : k.current with
  | none => exact hserve hk _
  | some h =>
    have hsame := Alike.capture k h (k.machine.loadState TrapVector.interrupt.oldArea)
    have hsaved := hserve (hk.congr hsame.toSameBooks)
      (k.machine.loadState TrapVector.interrupt.oldArea).cause
    exact Performs.congr (interruptUse?_saved k h _ _ ▸ hsaved) (view_saved k h _ id)

/-! ## Calls -/

/-- Handling a trap has the effects of the use that it makes. -/
theorem dispatch_performs (hk : k.Sound) (hid : id.IsOrdinary) (hspares : k.Spares id)
    (vector : TrapVector) : k.Performs id (k.trapUse? vector) (dispatch vector k) := by
  cases vector with
  | sysBreak => exact handleSysBreak_performs hk hid hspares
  | interrupt => exact handleInterrupt_performs hk.toAccounted hid
  | programTrap =>
    exact captureAndRaise_performs hk.toAccounted hid hspares .programTrap .programTrap
  | tlb => exact captureAndRaise_performs hk.toAccounted hid hspares .tlb .tlb

/-- Every call has the effects of the use that it makes. -/
theorem Sound.call_performs (hk : k.Sound) (hid : id.IsOrdinary) (hspares : k.Spares id)
    (call : Call) : k.Performs id (call.use? k) (call.run k) := by
  cases call with
  | schedule => exact schedule_performs hid k
  | dispatch vector => exact dispatch_performs hk hid hspares vector
  | deliver event =>
    show Performs k id _ (Kernel.deliver event k)
    rw [deliver_apply]
    cases htrap : k.machine.trap event (k.currentDescriptor.map (·.state)) with
    | error cause => exact Call.use?_deliver_error htrap
    | ok trapped =>
      obtain ⟨vector, machine⟩ := trapped
      have hsame := Alike.setMachine k machine
      have hvalue : value { k with machine } id = k.value id := by
        apply value_setMachine
        intro own heq
        subst heq
        exact Machine.read_of_trap hid htrap
      have hperforms := (dispatch_performs (hk.congr hsame) hid (hspares.congr hsame) vector).congr
        (hsame.view hvalue)
      unfold Call.use?
      rw [Call.trap?_deliver htrap]
      exact hperforms

/-- A request that the running process makes in kernel mode asks for its service. -/
theorem Call.trap?_request (hh : k.current = some h) (number a1 a2 a3 : Word) : ∃ machine,
    k.machine.trap (.request number a1 a2 a3 false) (k.currentDescriptor.map (·.state)) =
      .ok (.sysBreak, machine) ∧
    (deliver (.request number a1 a2 a3 false)).trap? k = some (.sysBreak, { k with machine }) ∧
    ({ k with machine } : Kernel).service? = Service.ofRequest? number a1 a2 a3 := by
  obtain ⟨⟨vector, machine⟩, htrap, hvector, hcode, h0, h1, h2, h3, hmode⟩ :=
    k.machine.trap_of_inRange (k.currentDescriptor.map (·.state))
      (show ¬ (Event.request number a1 a2 a3 false).OutOfRange from id)
  obtain rfl : vector = .sysBreak := hvector
  have hcurrent : k.current ≠ none := hh ▸ Option.some_ne_none h
  refine ⟨machine, htrap, trap?_deliver htrap, ?_⟩
  unfold service? Service.ofTrap?
  dsimp only
  rw [if_pos ⟨hcurrent, hcode, hmode⟩]
  exact congr (congr (congr (congrArg Service.ofRequest? h0) h1) h2) h3

/-- The use of a request that the running process makes in kernel mode. -/
theorem Call.use?_request (hh : k.current = some h) (number a1 a2 a3 : Word) :
    (deliver (.request number a1 a2 a3 false)).use? k =
      (Service.ofRequest? number a1 a2 a3).bind Service.use? := by
  obtain ⟨machine, -, htrap, hservice⟩ := trap?_request hh number a1 a2 a3
  unfold use?
  rw [htrap]
  exact congrArg (Option.bind · Service.use?) hservice

/-! ## Start-up -/

theorem read_foldl_storeState {a : Word} (ha : Machine.IsOrdinary a)
    (s : Machine → TrapVector → ProcessorState) (vectors : List TrapVector) (m : Machine) :
    (vectors.foldl (fun m vector => m.storeState vector.newArea (s m vector)) m).read a =
      m.read a := by
  induction vectors generalizing m with
  | nil => rfl
  | cons vector vectors ih =>
    rw [List.foldl_cons, ih]
    exact Machine.read_storeState ha.notRegister m _ (ha.stateAddress_newArea_ne vector)

theorem value_installHandlers (hid : id.IsOrdinary) (k : Kernel) (ramTop : Word) :
    (k.installHandlers ramTop).value id = k.value id := by
  apply value_setMachine
  intro own heq
  subst heq
  exact read_foldl_storeState hid (fun m vector => handlerState m.board vector ramTop) _ k.machine

/-- Starting up leaves the semaphores alone, and it fails for want of a process descriptor only if
none is free. -/
theorem boot_untouched (hk : k.Sound) (hid : id.IsOrdinary) :
    (boot k).Ends (fun _ k' => k.Untouched id k')
      (fun c k' => k.Untouched id k' ∧
        (c = .processPoolExhausted → ∀ h, k.processes.isUsed h = true))
      (fun _ => True) := by
  refine boot_ends (fun _ => ⟨.refl id k, fun heq => Fault.noConfusion heq⟩) fun ramTop _ => ?_
  have hsame : k.Alike (k.installHandlers ramTop) := .setMachine k _
  have hinstall : k.Untouched id (k.installHandlers ramTop) :=
    .of_view (hsame.view (value_installHandlers hid k ramTop))
  have hroot : ∀ p, none = some p → (k.installHandlers ramTop).processes.isUsed p = true := by
    intro p heq
    cases heq
  simp only [createRoot, Action.ends_bind, Action.ends_look]
  refine (create_untouched (hk.congr hsame) id _ none hroot).mono ?_ (fun _ _ => False.elim)
    fun _ _ => trivial
  rintro result k' ⟨hk', hresult⟩
  cases result with
  | some h => exact hinstall.trans (hk'.trans ⟨rfl, rfl⟩)
  | none =>
    refine ⟨hinstall.trans hk', fun _ h => ?_⟩
    rcases hresult with ⟨-, -, hfull⟩ | ⟨_, heq, -⟩
    · exact (hsame.isUsed h).symm.trans (hfull h)
    · cases heq

theorem Sound.untouched_of_boot (hk : k.Sound) (hid : id.IsOrdinary)
    (h : (Kernel.boot k).state? = some k') : k.Untouched id k' :=
  Ends.of_state? ((boot_untouched hk hid).mono (fun _ _ h => h) (fun _ _ h => h.1) fun _ h => h) h

end Kernel

end Nucleus
