import Nucleus.Proofs.Kernel.Trap
import Nucleus.Proofs.Machine.Event

/-!
# Delivery of events

Delivering an event keeps the invariant. It breaks a check only if the event names what does not
exist, if the nucleus has to touch a state that runs past the end of the address space
(`Kernel.Breaks`), or when the pids are used up.
-/

namespace Nucleus

theorem Machine.stateFits_eq_false_iff {address : Word} :
    stateFits address = false ↔ 0xffffff77 < address := by
  simp only [stateFits, decide_eq_false_iff_not]
  exact UInt32.not_le

theorem Service.isReserved_iff {number : Word} :
    isReserved number = true ↔ 1 ≤ number.toNat ∧ number.toNat ≤ 12 := by
  simp only [isReserved, Bool.and_eq_true, decide_eq_true_iff]
  exact Iff.rfl

/-- The nucleus serves the reserved numbers and no others. -/
theorem Service.isSome_ofRequest? (number a1 a2 a3 : Word) :
    (ofRequest? number a1 a2 a3).isSome = isReserved number := by
  rw [Bool.eq_iff_iff, isReserved_iff]
  unfold ofRequest?
  split
  case h_13 =>
    refine iff_of_false Bool.false_ne_true ?_
    rintro ⟨hlow, hhigh⟩
    grind
  all_goals
    rename_i hnumber
    rw [hnumber]
    exact iff_of_true rfl (by decide)

theorem Service.overruns_iff {number a1 a2 a3 : Word} {service : Service}
    (h : ofRequest? number a1 a2 a3 = some service) :
    service.Overruns ↔ number = 1 ∧ 0xffffff77 < a1 := by
  have hone : number = 1 ↔ number.toNat = 1 := UInt32.toNat_inj.symm
  rw [hone]
  unfold ofRequest? at h
  split at h
  case h_1 hnumber =>
    obtain rfl := Option.some.inj h
    rw [hnumber, ← Machine.stateFits_eq_false_iff]
    exact (and_iff_right rfl).symm
  case h_13 => cases h
  all_goals
    rename_i hnumber
    obtain rfl := Option.some.inj h
    rw [hnumber]
    exact iff_of_false id fun hand => absurd hand.1 (by decide)

/-- The class of the exception that an event raises in the running process, if the nucleus does not
serve the event itself. -/
def Event.raises? : Event → Option ExceptionClass
  | tlb => some .tlb
  | programTrap _ => some .programTrap
  | breakpoint => some .sysBreak
  | request number _ _ _ fromUser =>
    if Service.isReserved number then if fromUser then some .programTrap else none
    else some .sysBreak
  | timer | device _ _ _ | terminal _ _ _ | interrupt _ => none

namespace Kernel

open Outcome Machine

variable {k : Kernel} {event : Event}

/-- Handling an event would touch a state that runs past the end of the address space: that of a
new process, or one in an area of the handler to which an exception is passed up. -/
def EventOverruns (k : Kernel) (event : Event) : Prop :=
  (k.current ≠ none ∧ ∃ a1 a2 a3, event = .request 1 a1 a2 a3 false ∧ 0xffffff77 < a1) ∨
    ∃ h c handler, k.current = some h ∧ event.raises? = some c ∧
      (k.processes.get h).handler c = some handler ∧
      (0xffffff77 < handler.oldArea ∨ 0xffffff77 < handler.newArea)

/-- An event breaks a check of the machine or of the nucleus. -/
def Breaks (k : Kernel) (event : Event) : Prop := event.OutOfRange ∨ k.EventOverruns event

theorem eventOverruns_iff_of_raises {c : ExceptionClass} (hraises : event.raises? = some c)
    (hevent : ∀ a1 a2 a3, event ≠ .request 1 a1 a2 a3 false) :
    k.EventOverruns event ↔ k.RaiseOverruns c := by
  constructor
  · rintro (⟨-, a1, a2, a3, heq, -⟩ | ⟨h, c', handler, hh, hc', hhandler, hover⟩)
    · exact absurd heq (hevent a1 a2 a3)
    · obtain rfl := Option.some.inj (hraises.symm.trans hc')
      exact ⟨h, handler, hh, hhandler, hover.imp stateFits_eq_false_iff.2 stateFits_eq_false_iff.2⟩
  · rintro ⟨h, handler, hh, hhandler, hover⟩
    exact .inr ⟨h, c, handler, hh, hraises, hhandler,
      hover.imp stateFits_eq_false_iff.1 stateFits_eq_false_iff.1⟩

theorem eventOverruns_iff_of_create {a1 a2 a3 : Word} :
    k.EventOverruns (.request 1 a1 a2 a3 false) ↔ k.current ≠ none ∧ 0xffffff77 < a1 := by
  constructor
  · rintro (⟨hne, b1, b2, b3, heq, hover⟩ | ⟨h, c, handler, -, hraises, -⟩)
    · cases heq
      exact ⟨hne, hover⟩
    · cases hraises
  · rintro ⟨hne, hover⟩
    exact .inl ⟨hne, a1, a2, a3, rfl, hover⟩

theorem not_eventOverruns (hraises : event.raises? = none)
    (hevent : ∀ a1 a2 a3, event ≠ .request 1 a1 a2 a3 false) : ¬ k.EventOverruns event := by
  rintro (⟨-, a1, a2, a3, heq, -⟩ | ⟨h, c, handler, -, hc, -⟩)
  · exact hevent a1 a2 a3 heq
  · rw [hraises] at hc
    cases hc

theorem requestOverruns_iff_of_user {number a1 a2 a3 : Word} {trap : ProcessorState}
    (hcode : trap.code? = some .syscall)
    (hpasses : (Event.request number a1 a2 a3 true).Passes trap) :
    k.RequestOverruns trap ↔ k.EventOverruns (.request number a1 a2 a3 true) := by
  obtain ⟨h0, -, -, -, hmode⟩ := hpasses
  have hevent : ∀ b1 b2 b3, Event.request number a1 a2 a3 true ≠ .request 1 b1 b2 b3 false := by
    intro b1 b2 b3 heq
    cases heq
  unfold RequestOverruns
  rw [hcode]
  dsimp only
  rw [hmode, h0, if_pos rfl]
  cases hreserved : Service.isReserved number with
  | true =>
    refine (eventOverruns_iff_of_raises ?_ hevent).symm
    simp [Event.raises?, hreserved]
  | false =>
    refine (eventOverruns_iff_of_raises ?_ hevent).symm
    simp [Event.raises?, hreserved]

theorem requestOverruns_iff_of_kernel {number a1 a2 a3 : Word} {trap : ProcessorState}
    (hcode : trap.code? = some .syscall)
    (hpasses : (Event.request number a1 a2 a3 false).Passes trap) :
    k.RequestOverruns trap ↔ k.EventOverruns (.request number a1 a2 a3 false) := by
  obtain ⟨h0, h1, h2, h3, hmode⟩ := hpasses
  have hservice : Service.ofTrap? trap = Service.ofRequest? number a1 a2 a3 := by
    simp only [Service.ofTrap?, h0, h1, h2, h3]
  have hsome := Service.isSome_ofRequest? number a1 a2 a3
  unfold RequestOverruns
  rw [hcode]
  dsimp only
  rw [hmode, if_neg Bool.false_ne_true, hservice]
  cases hrequest : Service.ofRequest? number a1 a2 a3 with
  | none =>
    rw [hrequest] at hsome
    refine (eventOverruns_iff_of_raises ?_ ?_).symm
    · simp [Event.raises?, ← hsome]
    · intro b1 b2 b3 heq
      cases heq
      cases hrequest
  | some service =>
    rw [hrequest] at hsome
    dsimp only
    rw [Service.overruns_iff hrequest]
    by_cases hone : number = 1
    · subst hone
      rw [eventOverruns_iff_of_create, and_iff_right rfl]
    · refine iff_of_false (fun hand => hone hand.2.1) (not_eventOverruns ?_ ?_)
      · simp [Event.raises?, ← hsome]
      · intro b1 b2 b3 heq
        cases heq
        exact hone rfl

/-- Handling the trap of an event touches the states that the event says. -/
theorem trapOverruns_iff {vector : TrapVector} {machine : Machine}
    (hfired : Fired event (vector, machine)) :
    ({ k with machine } : Kernel).TrapOverruns vector ↔ k.EventOverruns event := by
  obtain ⟨hvector, hcode, hpasses⟩ := hfired
  have hsame := Alike.setMachine k machine
  obtain rfl : vector = event.vector := hvector
  cases event with
  | request number a1 a2 a3 fromUser =>
    refine (hsame.requestOverruns_iff _).trans ?_
    cases fromUser with
    | true => exact requestOverruns_iff_of_user hcode hpasses
    | false => exact requestOverruns_iff_of_kernel hcode hpasses
  | breakpoint =>
    refine (hsame.requestOverruns_iff _).trans ?_
    unfold RequestOverruns
    rw [show (machine.loadState TrapVector.sysBreak.oldArea).code? = some .breakpoint from hcode]
    exact (eventOverruns_iff_of_raises rfl fun _ _ _ => Event.noConfusion).symm
  | tlb =>
    refine hsame.raiseOverruns_iff.trans (eventOverruns_iff_of_raises rfl ?_).symm
    exact fun _ _ _ => Event.noConfusion
  | programTrap code =>
    refine hsame.raiseOverruns_iff.trans (eventOverruns_iff_of_raises rfl ?_).symm
    exact fun _ _ _ => Event.noConfusion
  | timer => exact iff_of_false id (not_eventOverruns rfl fun _ _ _ => Event.noConfusion)
  | device line unit status =>
    exact iff_of_false id (not_eventOverruns rfl fun _ _ _ => Event.noConfusion)
  | terminal unit transmitted received =>
    exact iff_of_false id (not_eventOverruns rfl fun _ _ _ => Event.noConfusion)
  | interrupt line => exact iff_of_false id (not_eventOverruns rfl fun _ _ _ => Event.noConfusion)

/-! ## Delivery -/

theorem untilTrap_bind_apply {β : Type} (run : Machine → Except Abort (TrapVector × Machine))
    (f : TrapVector → Action Kernel β) (k : Kernel) :
    (untilTrap run >>= f) k =
      match run k.machine with
      | .ok (vector, machine) => f vector { k with machine }
      | .error cause => .abort cause := by
  unfold untilTrap
  rw [bind_assoc, Action.look_bind_apply, bind_assoc, Action.check_bind_apply]
  cases run k.machine with
  | ok trapped =>
    dsimp only
    rw [bind_assoc, Action.change_bind_apply, Action.pure_bind_apply]
  | error cause => rfl

/-- To deliver an event is to handle the trap that the machine takes. -/
theorem deliver_apply (event : Event) (k : Kernel) :
    Kernel.deliver event k =
      match k.machine.trap event (k.currentDescriptor.map (·.state)) with
      | .ok (vector, machine) => dispatch vector { k with machine }
      | .error cause => .abort cause := by
  unfold Kernel.deliver
  rw [Action.look_bind_apply, untilTrap_bind_apply]

/-- Delivering an event keeps the invariant unless the event breaks a check. -/
theorem Sound.deliver (hk : k.Sound) (event : Event) :
    k.Settles (k.Breaks event) (deliver event k) := by
  rw [deliver_apply]
  by_cases hrange : event.OutOfRange
  · obtain ⟨cause, htrap⟩ := trap_of_outOfRange k.machine (k.currentDescriptor.map (·.state)) hrange
    rw [htrap]
    exact .inl (.inl hrange)
  · obtain ⟨⟨vector, machine⟩, htrap, hfired⟩ :=
      trap_of_inRange k.machine (k.currentDescriptor.map (·.state)) hrange
    rw [htrap]
    refine Settles.congr ((hk.congr (.setMachine k machine)).dispatch vector) rfl ?_
    rw [trapOverruns_iff hfired]
    exact (or_iff_right hrange).symm

/-- While there are pids left, an event makes the nucleus abort exactly if it breaks a check. -/
theorem Sound.aborts_iff (hk : k.Sound) (hlast : k.lastPid ≠ Word.allOnes) (event : Event) :
    (∃ cause, Kernel.deliver event k = .abort cause) ↔ k.Breaks event := by
  have hends := hk.deliver event
  unfold Settles at hends
  constructor
  · rintro ⟨cause, heq⟩
    rw [heq] at hends
    exact hends.resolve_right hlast
  · intro hbreaks
    cases heq : Kernel.deliver event k with
    | ok d k' log =>
      rw [heq] at hends
      exact absurd hbreaks hends.1.2
    | fault cause k' log =>
      rw [heq] at hends
      exact absurd hbreaks hends.1.2
    | abort cause => exact ⟨cause, rfl⟩

end Kernel

end Nucleus
