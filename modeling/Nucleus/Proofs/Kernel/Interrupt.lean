import Nucleus.Kernel.Interrupt
import Nucleus.Proofs.Kernel.Service

/-!
# Interrupts

An interrupt does three things to the books: it releases waiters of devices and of the pseudo-clock,
and it takes the processor from the running process. What these three keep (`Kernel.Steady`) is kept
by every interrupt, and so is the invariant. A kernel that has `Stopped` has nobody to release, so
an interrupt leaves its books as they are.
-/

namespace Nucleus.Kernel

open Outcome

variable {k k' k'' : Kernel} {id : SemaphoreId} {P : Kernel → Prop}

/-- A property that no interrupt can end. -/
structure Steady (P : Kernel → Prop) : Prop where
  alike : ∀ {k k'}, P k → k.Alike k' → P k'
  wakeNext : ∀ {k} id, P k → id.waitKind.isSoft = true →
    (wakeNext id k).Finishes fun _ k' => P k'
  expire : ∀ {k h}, P k → k.current = some h → h ∉ k.ready.items ∧
    P { k with current := none, ready := ⟨k.ready.items ++ [h]⟩ }

namespace Steady

theorem releaseClock (hP : Steady P) (n : Nat) (hk : P k) :
    (releaseClock n k).Finishes fun _ k' => P k' := by
  induction n generalizing k with
  | zero => exact hk
  | succ n ih =>
    unfold Kernel.releaseClock Finishes
    rw [Action.ends_bind, Action.ends_discard]
    refine (hP.wakeNext .clock hk rfl).ends fun _ k' hk' => ?_
    rw [Action.ends_bind, Action.ends_change]
    exact ih (hP.alike hk' (.add k' .clock 1))

theorem tickClock (hP : Steady P) (hk : P k) : (tickClock k).Finishes fun _ k' => P k' := by
  unfold Kernel.tickClock Finishes
  rw [Action.ends_bind, Action.ends_look]
  dsimp only
  split
  · rw [Action.ends_bind]
    exact (hP.releaseClock _ hk).ends fun _ _ hk' => hk'
  · rw [Action.ends_bind]
    refine (hP.wakeNext .clock hk rfl).ends fun woken k' hk' => ?_
    cases woken with
    | some h =>
      rw [Action.ends_bind, Action.ends_change]
      exact hP.alike hk' (.add k' .clock 1)
    | none =>
      rw [Action.ends_bind, Action.ends_change]
      exact hP.alike hk' (.add k' .clock (-1))

theorem serveTimer (hP : Steady P) (hk : P k) : (serveTimer k).Finishes fun _ k' => P k' := by
  have hk := hP.alike hk (.gatherTick k)
  simp only [Kernel.serveTimer, Finishes, Action.ends_bind, Action.ends_change, Action.ends_look]
  split
  · rw [Action.ends_bind]
    refine (hP.tickClock hk).ends fun _ k' hk' => ?_
    exact hP.alike hk' (.of_eq rfl rfl rfl rfl rfl rfl rfl)
  · rw [Action.ends_bind, Action.ends_look]
    cases hcurrent : k.gatherTick.current with
    | none => exact hk
    | some h =>
      obtain ⟨hready, hexpired⟩ := hP.expire hk hcurrent
      dsimp only
      rw [Action.ends_bind, Action.ends_change, Action.ends_bind, Action.ends_look,
        Action.ends_bind, Action.ends_note]
      exact Action.ends_attempt_ok (makeReady_of_not_mem hready) hexpired

theorem handOver (hP : Steady P) (hk : P k) (d : Device) (status : Word) :
    (handOver d status k).Finishes fun _ k' => P k' := by
  simp only [Kernel.handOver, Finishes, Action.ends_bind, Action.ends_change]
  refine (hP.wakeNext (.device d) (hP.alike hk (.add k (.device d) 1)) rfl).ends
    fun woken k' hk' => ?_
  cases woken with
  | some h => exact hP.alike hk' (.giveResult k' h status)
  | none => exact hP.alike hk' (.of_eq rfl rfl rfl rfl rfl rfl rfl)

theorem serveCompleted (hP : Steady P) (hk : P k) (d : Device) :
    (serveCompleted d k).Finishes fun _ k' => P k' := by
  simp only [Kernel.serveCompleted, Finishes, Action.ends_bind, Action.ends_look]
  exact (hP.handOver hk d _).ends fun _ k' hk' => hP.alike hk' (.setMachine k' _)

theorem nextUnit (hk : P k) (line : Cause.Line) : (nextUnit line k).Finishes fun _ k' => P k' := by
  unfold Kernel.nextUnit Finishes
  rw [Action.ends_bind, Action.ends_look]
  dsimp only
  split
  · exact hk
  · exact hk

theorem serveDevice (hP : Steady P) (hk : P k) (family : DeviceFamily) :
    (serveDevice family k).Finishes fun _ k' => P k' := by
  simp only [Kernel.serveDevice, Finishes, Action.ends_bind]
  refine (nextUnit hk family.line).ends fun unit k' hk' => ?_
  cases unit with
  | none => exact hk'
  | some unit => exact hP.serveCompleted hk' _

theorem serveTerminal (hP : Steady P) (hk : P k) :
    (serveTerminal k).Finishes fun _ k' => P k' := by
  simp only [Kernel.serveTerminal, Finishes, Action.ends_bind]
  refine (nextUnit hk .terminal).ends fun unit k' hk' => ?_
  cases unit with
  | none => exact hk'
  | some unit =>
    dsimp only
    rw [Action.ends_bind, Action.ends_look]
    split
    · exact hP.serveCompleted hk' _
    · split
      · exact hP.serveCompleted hk' _
      · exact hk'

theorem serveInterrupt (hP : Steady P) (hk : P k) (cause : Word) :
    (serveInterrupt cause k).Finishes fun _ k' => P k' := by
  unfold Kernel.serveInterrupt
  cases InterruptSource.ofCause cause with
  | timer => exact hP.serveTimer hk
  | device family => exact hP.serveDevice hk family
  | terminal => exact hP.serveTerminal hk
  | stray => exact hk

/-- An interrupt is served from a kernel with the property, and what runs next is decided in
another. -/
theorem handleInterrupt {ok : Decision → Kernel → Prop} {fault : Fault → Kernel → Prop}
    {abort : Abort → Prop} (hP : Steady P) (hk : P k)
    (hschedule : ∀ k', P k' → (schedule k').Ends ok fault abort) :
    (handleInterrupt k).Ends ok fault abort := by
  simp only [Kernel.handleInterrupt, Action.ends_bind, Action.ends_look, Action.ends_change]
  refine Finishes.ends (hP.serveInterrupt ?_ _) fun _ k' hk' => hschedule k' hk'
  split
  · rename_i h _
    exact hP.alike hk (.capture k h _)
  · exact hk

end Steady

/-- No interrupt can make a sound kernel unsound. -/
theorem steady_sound : Steady Sound where
  alike := Sound.congr
  wakeNext := fun _ hk _ => hk.wakeNext _
  expire := fun {k h} hk hcurrent => by
    have hat := hk.at_processor hcurrent
    refine ⟨fun hmem => ?_, ?_⟩
    · exact Place.noConfusion ((hat.mem_iff (q := .ready)).1 hmem)
    · exact hk.moved hat Place.noConfusion (moved_of_expiry hk.toAccounted hcurrent)

/-! ## Interrupts of a kernel that has stopped -/

/-- In a kernel that has stopped nobody waits for a device or the pseudo-clock. -/
theorem Stopped.waiting_eq_nil (hs : k.Stopped) (hk : k.Accounted)
    (hid : id.waitKind.isSoft = true) : k.waits.waiting id = [] := by
  refine List.eq_nil_iff_forall_not_mem.2 fun h hmem => ?_
  have hat : k.At h (.waitList id) := hk.at_of_mem hmem
  have hwait := hk.softCount_eq_zero_iff.1 hs.soft h (hk.used_of_mem hat.mem)
  rw [hat.wait] at hwait
  exact Bool.false_ne_true (hwait.symm.trans hid)

/-- A kernel has stopped with the books of an earlier one. -/
structure Rests (k k' : Kernel) : Prop where
  sound : k'.Sound
  stopped : k'.Stopped
  books : k.SameBooks k'

theorem Rests.congr (hr : k.Rests k') (hsame : k'.Alike k'') : k.Rests k'' where
  sound := hr.sound.congr hsame
  stopped := hr.stopped.congr hsame.toSameBooks
  books := hr.books.trans hsame.toSameBooks

/-- No interrupt can make a process ready in a kernel that has stopped. -/
theorem steady_rests (k : Kernel) : Steady k.Rests where
  alike := Rests.congr
  wakeNext := fun _ hr hid => by
    rw [wakeNext_of_empty (hr.stopped.waiting_eq_nil hr.sound.toAccounted hid)]
    exact hr
  expire := fun hr hcurrent => by
    rw [hr.stopped.current] at hcurrent
    cases hcurrent

end Nucleus.Kernel
