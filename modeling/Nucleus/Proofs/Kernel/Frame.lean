import Nucleus.Proofs.Kernel.Service
import Nucleus.Proofs.Machine.OrdinaryWord

/-!
# What a step leaves alone

Moving processes about changes neither the machine nor the values of semaphores nor the times
(`Kernel.SameWorld`). The value of a semaphore that the nucleus keeps itself, or that is kept in no
register, changes only when something is added to it (`value_add`).
-/

namespace Nucleus

/-- The value of the semaphore is kept by the nucleus itself or in an ordinary word of memory. -/
def SemaphoreId.IsOrdinary : SemaphoreId → Prop
  | user address => Machine.IsOrdinary address
  | device _ | clock => True

/-- The value of the semaphore is kept by the nucleus itself or in no register. -/
def SemaphoreId.OffRegisters : SemaphoreId → Prop
  | user address => ¬ Machine.InRegisterArea address
  | device _ | clock => True

theorem SemaphoreId.IsOrdinary.offRegisters {id : SemaphoreId} (hid : id.IsOrdinary) :
    id.OffRegisters := by
  cases id with
  | user address => exact fun ha => hid.notRegister ha.isRegister
  | device d => trivial
  | clock => trivial

theorem SemaphoreId.isOrdinary_clock : clock.IsOrdinary := trivial

theorem SemaphoreId.isOrdinary_device (d : Device) : (device d).IsOrdinary := trivial

namespace Kernel

open Outcome

variable {k k' k'' : Kernel} {h : Slot} {id : SemaphoreId} {α : Type}

/-! ## The machine, the values and the times -/

/-- Two kernels agree on the machine, the configuration and the times. -/
structure SameClocks (k k' : Kernel) : Prop where
  machine : k'.machine = k.machine
  config : k'.config = k.config
  chargedUntil : k'.chargedUntil = k.chargedUntil
  tickMicros : k'.tickMicros = k.tickMicros
  tickUntil : k'.tickUntil = k.tickUntil

/-- Two kernels agree on everything but who is alive and where. -/
structure SameWorld (k k' : Kernel) : Prop extends SameClocks k k' where
  values : k'.values = k.values

namespace SameClocks

theorem refl (k : Kernel) : k.SameClocks k := ⟨rfl, rfl, rfl, rfl, rfl⟩

theorem trans (hk : k.SameClocks k') (hk' : k'.SameClocks k'') : k.SameClocks k'' where
  machine := hk'.machine.trans hk.machine
  config := hk'.config.trans hk.config
  chargedUntil := hk'.chargedUntil.trans hk.chargedUntil
  tickMicros := hk'.tickMicros.trans hk.tickMicros
  tickUntil := hk'.tickUntil.trans hk.tickUntil

end SameClocks

namespace SameWorld

theorem refl (k : Kernel) : k.SameWorld k := ⟨.refl k, rfl⟩

theorem trans (hk : k.SameWorld k') (hk' : k'.SameWorld k'') : k.SameWorld k'' :=
  ⟨hk.toSameClocks.trans hk'.toSameClocks, hk'.values.trans hk.values⟩

theorem value (hk : k.SameWorld k') (id : SemaphoreId) : k'.value id = k.value id := by
  simp only [Kernel.value, hk.values, hk.machine]

end SameWorld

theorem onKernel_sameWorld (x : Action WaitRoom α) (k : Kernel) :
    (WaitRoom.onKernel x k).Always k.SameWorld := by
  unfold WaitRoom.onKernel Always
  rw [Action.ends_within]
  cases x k.toWaitRoom with
  | ok value room log => exact ⟨⟨rfl, rfl, rfl, rfl, rfl⟩, rfl⟩
  | fault cause room log => exact ⟨⟨rfl, rfl, rfl, rfl, rfl⟩, rfl⟩
  | abort cause => trivial

/-- An action that leaves a world, followed by others that keep it. -/
theorem sameWorld_bind {β : Type} {x : Action Kernel α} {f : α → Action Kernel β}
    (hx : (x k').Always k.SameWorld) (hf : ∀ a k', (f a k').Always k'.SameWorld) :
    ((x >>= f) k').Always k.SameWorld := by
  apply Action.ends_andThen hx
  intro a k' hk'
  exact (hf a k').mono fun _ h => hk'.trans h

theorem attempt_sameWorld {f : Kernel → Except Abort Kernel}
    (h : ∀ k k' : Kernel, f k = .ok k' → k.SameWorld k') (k : Kernel) :
    (Action.attempt f k).Always k.SameWorld := by
  unfold Always
  rw [Action.ends_attempt]
  cases hf : f k with
  | ok k' => exact h k k' hf
  | error cause => trivial

theorem sameWorld_of_softUp (h : k.softUp = .ok k') : k.SameWorld k' := by
  unfold softUp at h
  cases hsucc : Word.succ k.softCount <;> rw [hsucc] at h <;> cases h
  exact ⟨⟨rfl, rfl, rfl, rfl, rfl⟩, rfl⟩

theorem sameWorld_of_softDown (h : k.softDown = .ok k') : k.SameWorld k' := by
  unfold softDown at h
  cases hpred : Word.pred k.softCount <;> rw [hpred] at h <;> cases h
  exact ⟨⟨rfl, rfl, rfl, rfl, rfl⟩, rfl⟩

theorem sameWorld_of_makeReady (hready : k.makeReady h = .ok k') : k.SameWorld k' := by
  unfold makeReady at hready
  cases hqueue : k.ready.enqueue h <;> rw [hqueue] at hready <;> cases hready
  exact ⟨⟨rfl, rfl, rfl, rfl, rfl⟩, rfl⟩

theorem suspend_sameWorld (id : SemaphoreId) (wait : WaitKind) (k : Kernel) :
    (suspend id wait k).Always k.SameWorld := by
  unfold suspend
  refine sameWorld_bind (k := k) (.refl k) fun current k => ?_
  cases current with
  | none => exact .refl k
  | some h =>
    refine sameWorld_bind (onKernel_sameWorld _ k) fun _ k => ?_
    refine sameWorld_bind (k := k) ⟨⟨rfl, rfl, rfl, rfl, rfl⟩, rfl⟩ fun _ k => ?_
    dsimp only
    split
    · refine sameWorld_bind (attempt_sameWorld (fun _ _ => sameWorld_of_softUp) k) fun _ k => ?_
      exact ⟨⟨rfl, rfl, rfl, rfl, rfl⟩, rfl⟩
    · exact ⟨⟨rfl, rfl, rfl, rfl, rfl⟩, rfl⟩

theorem wakeNext_sameWorld (id : SemaphoreId) (k : Kernel) :
    (wakeNext id k).Always k.SameWorld := by
  unfold wakeNext
  refine sameWorld_bind (onKernel_sameWorld _ k) fun woken k => ?_
  cases woken with
  | none => exact .refl k
  | some h =>
    have hready : ∀ k : Kernel, ((do
        Action.change (·.modify h ({ · with wait := .none }))
        Action.attempt (·.makeReady h)
        return some h : Action Kernel (Option Slot)) k).Always k.SameWorld := by
      intro k
      refine sameWorld_bind (k := k) ⟨⟨rfl, rfl, rfl, rfl, rfl⟩, rfl⟩ fun _ k => ?_
      refine sameWorld_bind (attempt_sameWorld (fun _ _ => sameWorld_of_makeReady) k) fun _ k => ?_
      exact .refl k
    refine sameWorld_bind (k := k) (.refl k) fun d k => ?_
    dsimp only
    split
    · exact sameWorld_bind (attempt_sameWorld (fun _ _ => sameWorld_of_softDown) k) fun _ => hready
    · exact hready k

theorem check_sameWorld (x : Except Abort α) (k : Kernel) :
    (Action.check x k).Always k.SameWorld := by
  unfold Always
  rw [Action.ends_check]
  cases x with
  | ok value => exact .refl k
  | error cause => trivial

theorem create_sameWorld (state : ProcessorState) (parent : Option Slot) (k : Kernel) :
    (create state parent k).Always k.SameWorld := by
  unfold create
  refine sameWorld_bind (k := k) (.refl k) fun allocated k => ?_
  cases allocated with
  | none => exact .refl k
  | some slotAndTable =>
    refine sameWorld_bind (k := k) (.refl k) fun lastPid k => ?_
    refine sameWorld_bind (check_sameWorld _ k) fun pid k => ?_
    refine sameWorld_bind (k := k) ⟨⟨rfl, rfl, rfl, rfl, rfl⟩, rfl⟩ fun _ k => ?_
    refine sameWorld_bind (attempt_sameWorld (fun k k' h => ?_) k) fun _ k => ?_
    · cases hinsert : k.pids.insert pid slotAndTable.1 <;> rw [hinsert] at h <;> cases h
      exact ⟨⟨rfl, rfl, rfl, rfl, rfl⟩, rfl⟩
    · have henroll : ∀ k : Kernel, ((do
          Action.attempt (·.makeReady slotAndTable.1)
          Action.attempt fun k => do return { k with liveCount := ← Word.succ k.liveCount }
          Action.note (.created pid (← Action.look fun k => parent.map k.pidAt))
          return some slotAndTable.1 : Action Kernel (Option Slot)) k).Always k.SameWorld := by
        intro k
        have hready := attempt_sameWorld (fun _ _ => sameWorld_of_makeReady (h := slotAndTable.1)) k
        refine sameWorld_bind hready fun _ k => ?_
        refine sameWorld_bind (attempt_sameWorld (fun k k' h => ?_) k) fun _ k => ?_
        · cases hsucc : Word.succ k.liveCount <;> rw [hsucc] at h <;> cases h
          exact ⟨⟨rfl, rfl, rfl, rfl, rfl⟩, rfl⟩
        · exact .refl k
      cases parent with
      | none => exact henroll k
      | some parent =>
        exact sameWorld_bind (k := k) ⟨⟨rfl, rfl, rfl, rfl, rfl⟩, rfl⟩ fun _ => henroll

/-! ## Values -/

/-- Of the machine a value depends only on the word of its own semaphore. -/
theorem value_setMachine {machine : Machine}
    (hread : ∀ own, id = .user own → machine.read own = k.machine.read own) :
    value { k with machine } id = k.value id := by
  cases id with
  | device d => rfl
  | clock => rfl
  | user own => exact congrArg UInt32.toInt32 (hread own rfl)

theorem value_writeWord (hid : id.IsOrdinary) {address : Word} (h : Machine.IsRegister address)
    (value : Word) : (k.writeWord address value).value id = k.value id := by
  apply value_setMachine
  intro own heq
  subst heq
  exact Machine.read_write_of_isRegister hid.notRegister h k.machine value

theorem value_setTimer (hid : id.IsOrdinary) (micros : Word) :
    (k.setTimer micros).value id = k.value id :=
  value_writeWord hid Machine.isRegister_timer _

theorem value_charge (id : SemaphoreId) : k.charge.value id = k.value id := by
  unfold charge
  split
  · rfl
  · rfl

/-- Adding to a semaphore changes its value and no other. -/
theorem value_add (hid : id.OffRegisters) (k : Kernel) (other : SemaphoreId) (delta : Count) :
    (k.add other delta).value id =
      if other = id then Count.saturatingAdd (k.value id) delta else k.value id := by
  cases other with
  | clock => cases id <;> simp [value, add, SemaphoreValues.add, SemaphoreValues.value]
  | device d =>
    cases id with
    | clock => simp [value, add, SemaphoreValues.add, SemaphoreValues.value]
    | user address => simp [value, add, SemaphoreValues.add, SemaphoreValues.value]
    | device e =>
      by_cases hde : d = e
      · subst hde
        simp [value, add, SemaphoreValues.add, SemaphoreValues.value]
      · have hplace : d.place ≠ e.place := fun h => hde (Device.place_injective h)
        simp [value, add, SemaphoreValues.add, SemaphoreValues.value, hde, hplace]
  | user address =>
    cases id with
    | clock => simp [value, add, SemaphoreValues.add, SemaphoreValues.value]
    | device d => simp [value, add, SemaphoreValues.add, SemaphoreValues.value]
    | user own =>
      simp only [value, add, SemaphoreValues.add, SemaphoreValues.value,
        Machine.read_write hid, SemaphoreId.user.injEq]
      by_cases heq : address = own
      · simp [heq]
      · simp [heq]

end Kernel

end Nucleus
