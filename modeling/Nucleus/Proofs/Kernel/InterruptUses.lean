import Nucleus.Proofs.Kernel.Interrupt
import Nucleus.Proofs.Kernel.Uses

/-!
# What interrupts do to semaphores

A tick releases the waiters of the pseudo-clock one after the other and gives back their units; the
loop ends when the value has come up to zero (`releaseClock_view`). A completed device gives a unit
to its semaphore. Every interrupt has the effects of the one use that it makes
(`serveInterrupt_effect`).
-/

namespace Nucleus.Kernel

open Outcome

variable {k k' : Kernel} {h : Slot} {id : SemaphoreId} {n : Nat}

/-! ## The pseudo-clock -/

/-- While the value is negative each round of the loop releases a waiter, if there is one, and
brings the value one up. -/
theorem releaseClock_view (hk : k.Accounted) (hn : (k.value .clock).toInt + n ≤ 0) :
    (releaseClock n k).Finishes fun _ k' => k'.view .clock =
      { k.view .clock with value := Int32.ofInt ((k.value .clock).toInt + n) }.release true n := by
  induction n generalizing k with
  | zero =>
    have hvalue : Int32.ofInt ((k.value .clock).toInt + (0 : Nat)) = k.value .clock := by simp
    show k.view .clock = _
    rw [hvalue, View.release_zero]
    rfl
  | succ n ih =>
    unfold releaseClock Finishes
    rw [Action.ends_bind, Action.ends_discard]
    refine (wakeNext_view hk .clock).ends fun _ k₁ hk₁ => ?_
    obtain ⟨-, hk₁, hw, hview⟩ := hk₁
    have hvalue : ((k₁.add .clock 1).value .clock).toInt = (k.value .clock).toInt + 1 := by
      rw [value_add_self, hw.value, Count.toInt_add_one, Count.greatest]
      omega
    have hsum : ((k₁.add .clock 1).value .clock).toInt + n =
        (k.value .clock).toInt + (n + 1 : Nat) := by omega
    have hk₂ : (k₁.add .clock 1).Accounted := hk₁.congr (Alike.add k₁ .clock 1).toSameBooks
    rw [Action.ends_bind, Action.ends_change]
    refine (ih hk₂ (by omega)).mono fun _ k' hk' => ?_
    rw [hk', hsum, view_add SemaphoreId.isOrdinary_clock, if_pos rfl, hview, Nat.add_comm n 1,
      ← View.release_release]
    rfl

theorem releaseClock_untouched (hk : k.Accounted) (hid : id.IsOrdinary)
    (hne : SemaphoreId.clock ≠ id) (n : Nat) :
    (releaseClock n k).Finishes fun _ k' => k.Untouched id k' := by
  induction n generalizing k with
  | zero => exact .refl id k
  | succ n ih =>
    unfold releaseClock Finishes
    rw [Action.ends_bind, Action.ends_discard]
    refine (wakeNext_untouched hk hne).ends fun _ k₁ hk₁ => ?_
    have hk₂ : (k₁.add .clock 1).Accounted := hk₁.1.congr (Alike.add k₁ .clock 1).toSameBooks
    rw [Action.ends_bind, Action.ends_change]
    exact (ih hk₂).mono fun _ k' hk' => (hk₁.2.trans (.add hid hne k₁ 1)).trans hk'

/-- What a tick does to the view of the pseudo-clock. -/
theorem tickClock_view (hk : k.Accounted) :
    (tickClock k).Finishes fun _ k' => k'.view .clock = Use.tick.act true (k.view .clock) := by
  unfold tickClock Finishes Use.act
  rw [Action.ends_bind, Action.ends_look]
  by_cases hneg : (k.value .clock).toInt < 0
  · have hclock : k.values.clock.toInt < 0 := hneg
    have hview : (k.view .clock).value.toInt < 0 := hneg
    have hn : (k.value .clock).toInt + (-(k.value .clock).toInt).toNat = 0 := by omega
    dsimp only
    rw [if_pos hclock, if_pos hview, Action.ends_bind]
    refine (releaseClock_view hk (Int.le_of_eq hn)).ends fun _ k' hk' => ?_
    rw [Action.ends_note, hk', hn]
    rfl
  · have hclock : ¬ k.values.clock.toInt < 0 := hneg
    have hview : ¬ (k.view .clock).value.toInt < 0 := hneg
    dsimp only
    rw [if_neg hclock, if_neg hview, Action.ends_bind]
    refine (wakeNext_view hk .clock).ends fun woken k₁ hk₁ => ?_
    obtain ⟨rfl, -, -, hview⟩ := hk₁
    have hadd : ∀ delta, (k₁.add .clock delta).view .clock =
        ((k.view .clock).add delta).release true 1 := fun delta => by
      rw [view_add SemaphoreId.isOrdinary_clock, if_pos rfl, hview]
      rfl
    cases hq : k.waits.waiting .clock with
    | nil =>
      have hempty : (k.view .clock).waiting = [] := hq
      rw [if_pos hempty]
      exact hadd (-1)
    | cons h rest =>
      have hsome : (k.view .clock).waiting ≠ [] := by
        rw [show (k.view .clock).waiting = h :: rest from hq]
        exact List.cons_ne_nil h rest
      rw [if_neg hsome]
      exact hadd 1

theorem tickClock_untouched (hk : k.Accounted) (hid : id.IsOrdinary)
    (hne : SemaphoreId.clock ≠ id) : (tickClock k).Finishes fun _ k' => k.Untouched id k' := by
  unfold tickClock Finishes
  rw [Action.ends_bind, Action.ends_look]
  dsimp only
  split
  · rw [Action.ends_bind]
    exact (releaseClock_untouched hk hid hne _).mono fun _ _ hk' => hk'
  · rw [Action.ends_bind]
    refine (wakeNext_untouched hk hne).mono fun woken k₁ hk₁ => ?_
    cases woken with
    | some h => exact hk₁.2.trans (.add hid hne k₁ 1)
    | none => exact hk₁.2.trans (.add hid hne k₁ (-1))

theorem tickClock_effect (hk : k.Accounted) (hid : id.IsOrdinary) :
    (tickClock k).Finishes fun _ k' => Effect id (some (.clock, .tick)) k k' := by
  by_cases heq : SemaphoreId.clock = id
  · subst heq
    exact (tickClock_view hk).mono fun _ _ => .of_act
  · exact (tickClock_untouched hk hid heq).mono fun _ _ => .of_ne heq

/-- The timer ran out: if a tick is due the pseudo-clock ticks, else no semaphore changes. -/
theorem serveTimer_effect (hk : k.Accounted) (hid : id.IsOrdinary) :
    (serveTimer k).Finishes fun _ k' => Effect id (k.interruptUse? .timer) k k' := by
  have hgathered : k.gatherTick.Accounted := hk.congr (Alike.gatherTick k).toSameBooks
  have hsame := view_gatherTick id k
  simp only [serveTimer, interruptUse?, Finishes, Action.ends_bind, Action.ends_change,
    Action.ends_look, if_true]
  split
  · rw [Action.ends_bind]
    exact (tickClock_effect hgathered hid).mono fun _ _ hk' => hk'.congr hsame rfl
  · rw [Action.ends_bind, Action.ends_look]
    cases hh : k.gatherTick.current with
    | none => exact Effect.of_untouched (.of_view hsame)
    | some h =>
      have hat := hgathered.at_processor hh
      have hready : h ∉ k.gatherTick.ready.items := fun hmem =>
        Place.noConfusion ((hat.mem_iff (q := .ready)).1 hmem)
      dsimp only
      rw [Action.ends_bind, Action.ends_change, Action.ends_bind, Action.ends_look,
        Action.ends_bind, Action.ends_note]
      exact Action.ends_attempt_ok (makeReady_of_not_mem hready) (Effect.of_untouched ⟨rfl, rfl⟩)

/-! ## Completed devices -/

theorem view_latch (k : Kernel) (d : Device) (status : Word) (id : SemaphoreId) :
    view { k with values := k.values.latch d status } id = k.view id := by
  cases id <;> rfl

/-- A completion gives a unit to the semaphore of the device. -/
theorem serveCompleted_effect (hk : k.Accounted) (hid : id.IsOrdinary) (d : Device) :
    (serveCompleted d k).Finishes fun _ k' => Effect id (some (.device d, .give)) k k' := by
  simp only [serveCompleted, handOver, Finishes, Action.ends_bind, Action.ends_look,
    Action.ends_change]
  refine (wakeNext_effect hk hid (.device d)).mono fun woken k₁ hk₁ => ?_
  have hacknowledge : ∀ k : Kernel, (k.writeWord d.commandRegister acknowledgeCommand).view id =
      k.view id := fun k =>
    (Alike.setMachine k _).view (value_writeWord hid (Machine.isRegister_commandRegister d) _)
  cases woken with
  | some h => exact hk₁.congr rfl ((hacknowledge _).trans (view_giveResult k₁ h _ id))
  | none => exact hk₁.congr rfl ((hacknowledge _).trans (view_latch k₁ d _ id))

theorem nextUnit_finishes (line : Cause.Line) (k : Kernel) :
    (nextUnit line k).Finishes fun unit k' =>
      unit = lowestRaised (k.machine.read (bitmapOf line)) ∧ k' = k := by
  unfold nextUnit Finishes
  rw [Action.ends_bind, Action.ends_look]
  exact Action.ends_if_note ⟨rfl, rfl⟩

theorem serveDevice_effect (hk : k.Accounted) (hid : id.IsOrdinary) (family : DeviceFamily) :
    (serveDevice family k).Finishes fun _ k' =>
      Effect id (k.interruptUse? (.device family)) k k' := by
  simp only [serveDevice, Finishes, Action.ends_bind]
  refine (nextUnit_finishes family.line k).ends ?_
  rintro unit k' ⟨hunit, rfl⟩
  have huse : k'.interruptUse? (.device family) =
      unit.map fun unit => (SemaphoreId.device ⟨family, unit⟩, Use.give) := by
    simp [interruptUse?, completed?, hunit, Function.comp_def]
  rw [huse]
  cases unit with
  | none => exact Effect.of_untouched (.refl id k')
  | some unit => exact serveCompleted_effect hk hid ⟨family, unit⟩

theorem serveTerminal_effect (hk : k.Accounted) (hid : id.IsOrdinary) :
    (serveTerminal k).Finishes fun _ k' => Effect id (k.interruptUse? .terminal) k k' := by
  simp only [serveTerminal, Finishes, Action.ends_bind]
  refine (nextUnit_finishes .terminal k).ends ?_
  rintro unit k' ⟨hunit, rfl⟩
  simp only [interruptUse?, completed?, ← hunit]
  cases unit with
  | none => exact Effect.of_untouched (.refl id k')
  | some unit =>
    simp only [Option.bind_some]
    rw [Action.ends_bind, Action.ends_look]
    split
    · exact serveCompleted_effect hk hid ⟨.terminalTransmit, unit⟩
    · split
      · exact serveCompleted_effect hk hid ⟨.terminalReceive, unit⟩
      · exact Effect.of_untouched (.refl id k')

/-- Serving an interrupt has the effects of the one use that it makes. -/
theorem serveInterrupt_effect (hk : k.Accounted) (hid : id.IsOrdinary) (cause : Word) :
    (serveInterrupt cause k).Finishes fun _ k' =>
      Effect id (k.interruptUse? (InterruptSource.ofCause cause)) k k' := by
  unfold serveInterrupt
  cases InterruptSource.ofCause cause with
  | timer => exact serveTimer_effect hk hid
  | device family => exact serveDevice_effect hk hid family
  | terminal => exact serveTerminal_effect hk hid
  | stray => exact Effect.of_untouched (.refl id k)

end Nucleus.Kernel
