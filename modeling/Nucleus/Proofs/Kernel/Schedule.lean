import Nucleus.Proofs.Kernel.Moves

/-!
# Scheduling

There are five ways to decide what runs next (`Kernel.Choice`). `schedule` keeps the invariant. It
halts or reports a deadlock only when the machine has `Stopped`: nobody runs, is ready, or waits for
a device or the pseudo-clock.
-/

namespace Nucleus.Kernel

open Outcome

variable {k k' : Kernel} {h : Slot}

/-! ## Keeping time -/

/-- The running process is charged what has passed since it was charged last. -/
theorem charge_eq (hh : k.current = some h) :
    k.charge = { k with
      chargedUntil := (elapsed k.machine.now k.chargedUntil k.machine.timeScale).2 }.modify h
      (·.charge (elapsed k.machine.now k.chargedUntil k.machine.timeScale).1) := by
  unfold charge
  rw [hh]

namespace Alike

theorem setTimer (k : Kernel) (micros : Word) : k.Alike (k.setTimer micros) :=
  setMachine k _

theorem gatherTick (k : Kernel) : k.Alike k.gatherTick := of_eq rfl rfl rfl rfl rfl rfl rfl

theorem charge (k : Kernel) : k.Alike k.charge := by
  unfold Kernel.charge
  split
  · exact of_eq rfl rfl rfl rfl rfl rfl rfl
  · have hclock : ∀ chargedUntil, k.Alike { k with chargedUntil } := fun _ =>
      of_eq rfl rfl rfl rfl rfl rfl rfl
    exact (hclock _).trans (modify (fun _ => ⟨rfl, rfl, rfl, rfl, rfl⟩) fun _ => ⟨rfl, rfl⟩)

/-- The running process has its state saved and is charged. -/
theorem capture (k : Kernel) (h : Slot) (state : ProcessorState) :
    k.Alike (k.modify h ({ · with state })).charge :=
  (setState k h state).trans (charge _)

end Alike

/-! ## The choices -/

theorem schedule_eq_resumeCurrent (hh : k.current = some h) : schedule k = k.resumeCurrent h := by
  unfold Kernel.schedule
  rw [hh]

theorem schedule_eq_dispatchNext {rest : Queue Slot} (hcurrent : k.current = none)
    (hready : k.ready.items = h :: rest.items) : schedule k = k.dispatchNext h rest := by
  simp only [Kernel.schedule, hcurrent, Queue.dequeue_eq_some_iff.2 hready]

theorem schedule_eq_waitOrStop (hcurrent : k.current = none) (hready : k.ready.items = []) :
    schedule k = k.waitOrStop := by
  simp only [Kernel.schedule, hcurrent, Queue.dequeue_eq_none_iff.2 hready]

/-- The choices that there are for what runs next, each with what comes of it. -/
inductive Choice (k : Kernel) : Outcome Kernel Decision → Prop
  /-- The running process goes on. -/
  | resume {h : Slot} (hh : k.current = some h) : Choice k (k.resumeCurrent h)
  /-- The first ready process gets the processor. -/
  | dispatch {h : Slot} {rest : Queue Slot} (hcurrent : k.current = none)
    (hready : k.ready.items = h :: rest.items) : Choice k (k.dispatchNext h rest)
  /-- Nobody is alive. -/
  | halt (hcurrent : k.current = none) (hready : k.ready.items = []) (hlive : k.liveCount = 0) :
    Choice k (.ok .halt k [.nothingLeft])
  /-- Nobody can be made ready any more. -/
  | deadlock (hcurrent : k.current = none) (hready : k.ready.items = []) (hlive : k.liveCount ≠ 0)
    (hsoft : k.softCount = 0) : Choice k (.fault .deadlock k [.stuck k.liveCount])
  /-- The processor waits, until the next tick is due at the latest. -/
  | wait (hcurrent : k.current = none) (hready : k.ready.items = []) (hlive : k.liveCount ≠ 0)
    (hsoft : k.softCount ≠ 0) :
    Choice k (.ok .idle (k.gatherTick.setTimer k.gatherTick.untilTick) [.idle k.softCount])

theorem choice_schedule (k : Kernel) : k.Choice (schedule k) := by
  cases hcurrent : k.current with
  | some h => exact schedule_eq_resumeCurrent hcurrent ▸ .resume hcurrent
  | none =>
    cases hdequeue : k.ready.dequeue with
    | some next =>
      have hready := Queue.dequeue_eq_some_iff.1 hdequeue
      exact schedule_eq_dispatchNext hcurrent hready ▸ .dispatch hcurrent hready
    | none =>
      have hready := Queue.dequeue_eq_none_iff.1 hdequeue
      rw [schedule_eq_waitOrStop hcurrent hready]
      unfold waitOrStop
      split
      · rename_i hlive
        exact .halt hcurrent hready hlive
      · rename_i hlive
        split
        · rename_i hsoft
          exact .deadlock hcurrent hready hlive hsoft
        · rename_i hsoft
          exact .wait hcurrent hready hlive hsoft

/-! ## Decisions -/

/-- Nobody runs or is ready, and no wait ends by itself. -/
structure Stopped (k : Kernel) : Prop where
  current : k.current = none
  ready : k.ready.items = []
  soft : k.softCount = 0

theorem Stopped.congr (hk : k.Stopped) (hsame : k.SameBooks k') : k'.Stopped where
  current := hsame.current.trans hk.current
  ready := hsame.ready ▸ hk.ready
  soft := hsame.softCount.trans hk.soft

theorem Accounted.liveCount_eq_zero_iff (hk : k.Accounted) :
    k.liveCount = 0 ↔ ∀ h, k.processes.isUsed h = false := by
  rw [← countSlots_eq_zero_iff, ← hk.live, ← UInt32.toNat_inj]
  exact Iff.rfl

theorem Accounted.softCount_eq_zero_iff (hk : k.Accounted) :
    k.softCount = 0 ↔ ∀ h, k.processes.isUsed h = true →
      (k.processes.get h).wait.isSoft = false := by
  rw [← UInt32.toNat_inj, hk.soft]
  refine countSlots_eq_zero_iff.trans (forall_congr' fun h => ?_)
  cases k.processes.isUsed h <;> simp

theorem Accounted.stopped_of_empty (hk : k.Accounted) (hcurrent : k.current = none)
    (hready : k.ready.items = []) (hlive : k.liveCount = 0) : k.Stopped where
  current := hcurrent
  ready := hready
  soft := hk.softCount_eq_zero_iff.2 fun h hh => by
    rw [hk.liveCount_eq_zero_iff.1 hlive h] at hh
    cases hh

theorem Sound.resumeCurrent (hk : k.Sound) (h : Slot) :
    (k.resumeCurrent h).Finishes fun d k' => (∃ pid state, d = .resume pid state) ∧ k'.Sound :=
  ⟨⟨_, _, rfl⟩,
    hk.congr (((Alike.charge k).trans (Alike.gatherTick _)).trans (Alike.setTimer _ _))⟩

theorem Sound.dispatchNext {rest : Queue Slot} (hk : k.Sound) (hcurrent : k.current = none)
    (hready : k.ready.items = h :: rest.items) :
    (k.dispatchNext h rest).Finishes fun d k' =>
      (∃ pid state, d = .resume pid state) ∧ k'.Sound := by
  have hmem : h ∈ k.standing .ready := by
    change h ∈ k.ready.items
    rw [hready]
    exact List.mem_cons_self
  have hmoved := hk.moved (hk.at_of_mem hmem) (fun heq => Place.noConfusion heq)
    (moved_of_dispatch hk.toAccounted hcurrent hready)
  refine ⟨⟨_, _, rfl⟩, hmoved.congr (Alike.trans ?_ (Alike.setTimer _ _))⟩
  refine Alike.trans (Alike.trans ?_ (Alike.gatherTick _)) (Alike.modify (fun _ => ?_) fun _ => ?_)
  · exact .of_eq rfl rfl rfl rfl rfl rfl rfl
  · exact ⟨rfl, rfl, rfl, rfl, rfl⟩
  · exact ⟨rfl, rfl⟩

/-- The nucleus stays sound whatever it decides, and it stops only when it must. -/
theorem Sound.schedule (hk : k.Sound) :
    (schedule k).Ends
      (fun d k' => k'.Sound ∧ (d = .halt → k'.Stopped ∧ k'.liveCount = 0))
      (fun c k' => k'.Sound ∧ c = .deadlock ∧ k'.Stopped ∧ k'.liveCount ≠ 0)
      (fun _ => False) := by
  have hchoice := k.choice_schedule
  generalize Kernel.schedule k = o at hchoice ⊢
  cases hchoice with
  | resume hh =>
    refine (hk.resumeCurrent _).ends ?_
    rintro _ k' ⟨⟨pid, state, rfl⟩, hk'⟩
    exact ⟨hk', fun heq => Decision.noConfusion heq⟩
  | dispatch hcurrent hready =>
    refine (hk.dispatchNext hcurrent hready).ends ?_
    rintro _ k' ⟨⟨pid, state, rfl⟩, hk'⟩
    exact ⟨hk', fun heq => Decision.noConfusion heq⟩
  | halt hcurrent hready hlive =>
    exact ⟨hk, fun _ => ⟨hk.stopped_of_empty hcurrent hready hlive, hlive⟩⟩
  | deadlock hcurrent hready hlive hsoft => exact ⟨hk, rfl, ⟨hcurrent, hready, hsoft⟩, hlive⟩
  | wait =>
    exact ⟨hk.congr ((Alike.gatherTick k).trans (Alike.setTimer _ _)),
      fun heq => Decision.noConfusion heq⟩

end Nucleus.Kernel
