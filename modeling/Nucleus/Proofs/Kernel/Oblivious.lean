import Nucleus.Proofs.Kernel.Lockstep

/-!
# Calls do not see the tape

No call of the nucleus reads or changes the tape of the machine (`Kernel.Oblivious`,
`Call.run_withTape`). For the smallest changes this is shown one by one; that it then holds of every
call is a case of `Kernel.Lockstep` in which no slot is renamed.
-/

namespace Nucleus

theorem Outcome.mapState_after {σ τ α : Type} (f : σ → τ) (earlier : List Notice)
    (o : Outcome σ α) : (o.after earlier).mapState f = (o.mapState f).after earlier := by
  cases o <;> rfl

theorem Descriptor.rename_refl (d : Descriptor) : d.rename (Equiv.refl Slot) = d := by
  simp [rename]

namespace Kernel

open Outcome

variable {k k' : Kernel} {t : Tape} {α β : Type}

/-- The kernel with another tape in its machine. -/
def withTape (k : Kernel) (t : Tape) : Kernel := { k with machine := k.machine.withTape t }

/-- An action that neither reads nor changes the tape. -/
def Oblivious (x : Action Kernel α) : Prop :=
  ∀ t k, x (k.withTape t) = (x k).mapState (·.withTape t)

namespace Oblivious

theorem bind {x : Action Kernel α} {f : α → Action Kernel β} (hx : Oblivious x)
    (hf : ∀ a, Oblivious (f a)) : Oblivious (x >>= f) := by
  intro t k
  rw [Action.bind_apply, Action.bind_apply, hx]
  cases x k with
  | ok a k₁ log =>
    simp only [mapState, hf a t k₁]
    exact (mapState_after _ log (f a k₁)).symm
  | fault cause k₁ log => rfl
  | abort cause => rfl

theorem pure (a : α) : Oblivious (Pure.pure a : Action Kernel α) := fun _ _ => rfl

theorem look {f : Kernel → α} (hf : ∀ t k, f (k.withTape t) = f k) :
    Oblivious (Action.look f) := by
  intro t k
  show Outcome.ok (f (k.withTape t)) (k.withTape t) [] = _
  rw [hf]
  rfl

theorem change {f : Kernel → Kernel} (hf : ∀ t k, f (k.withTape t) = (f k).withTape t) :
    Oblivious (Action.change f) := fun t k => congrArg (Outcome.ok () · []) (hf t k)

theorem attempt {f : Kernel → Except Abort Kernel}
    (hf : ∀ t k, f (k.withTape t) = (f k).map (·.withTape t)) : Oblivious (Action.attempt f) := by
  intro t k
  unfold Action.attempt
  rw [hf]
  cases f k <;> rfl

theorem check (x : Except Abort α) : Oblivious (Action.check x) := by
  intro t k
  cases x <;> rfl

theorem note (notice : Notice) : Oblivious (Action.note notice) := fun _ _ => rfl

theorem fail (cause : Fault) : Oblivious (Action.fail cause : Action Kernel α) := fun _ _ => rfl

theorem onKernel (x : Action WaitRoom α) : Oblivious (WaitRoom.onKernel x) := by
  intro t k
  unfold WaitRoom.onKernel Action.within
  show (x k.toWaitRoom).mapState _ = _
  cases x k.toWaitRoom <;> rfl

theorem discard {x : Action Kernel α} (hx : Oblivious x) :
    Oblivious (Functor.discard x : Action Kernel Unit) := by
  show Oblivious (Functor.mapConst PUnit.unit x)
  rw [LawfulFunctor.map_const, Function.comp_apply, map_eq_pure_bind]
  exact hx.bind fun _ => .pure _

/-! ## The smallest changes -/

theorem makeReady (h : Slot) : Oblivious (Action.attempt (·.makeReady h)) := by
  refine attempt fun t k => ?_
  show (do return { k.withTape t with ready := ← k.ready.enqueue h } : Except Abort Kernel) = _
  unfold Kernel.makeReady
  cases k.ready.enqueue h <;> rfl

theorem softUp : Oblivious (Action.attempt Kernel.softUp) := by
  refine attempt fun t k => ?_
  show (do return { k.withTape t with softCount := ← Word.succ k.softCount } :
    Except Abort Kernel) = _
  unfold Kernel.softUp
  cases Word.succ k.softCount <;> rfl

theorem softDown : Oblivious (Action.attempt Kernel.softDown) := by
  refine attempt fun t k => ?_
  show (do return { k.withTape t with softCount := ← Word.pred k.softCount } :
    Except Abort Kernel) = _
  unfold Kernel.softDown
  cases Word.pred k.softCount <;> rfl

theorem add (id : SemaphoreId) (delta : Count) : Oblivious (Action.change (·.add id delta)) := by
  refine change fun t k => ?_
  cases id with
  | device d => rfl
  | clock => rfl
  | user address =>
    exact congrArg (fun machine => { k with machine })
      (Machine.blind_write address
        (Count.saturatingAdd (k.machine.read address).toInt32 delta).toUInt32 k.machine t)

theorem expire (h : Slot) : Oblivious (expire h) := by
  refine (change fun _ _ => rfl).bind fun _ => ?_
  exact (look fun _ _ => rfl).bind fun _ => (note _).bind fun _ => makeReady h

theorem suspend (id : SemaphoreId) (wait : WaitKind) : Oblivious (suspend id wait) := by
  refine (look fun _ _ => rfl).bind fun current => ?_
  cases current with
  | none => exact fail _
  | some h =>
    refine (onKernel _).bind fun _ => (change fun _ _ => rfl).bind fun _ => ?_
    dsimp only
    split
    · exact softUp.bind fun _ => change fun _ _ => rfl
    · exact change fun _ _ => rfl

theorem wakeNext (id : SemaphoreId) : Oblivious (wakeNext id) := by
  refine (onKernel _).bind fun woken => ?_
  cases woken with
  | none => exact pure _
  | some h =>
    have hrest : Oblivious (do
        Action.change (·.modify h ({ · with wait := .none }))
        Action.attempt (·.makeReady h)
        return some h : Action Kernel (Option Slot)) :=
      (change fun _ _ => rfl).bind fun _ => (makeReady h).bind fun _ => pure _
    refine (look fun _ _ => rfl).bind fun soft => ?_
    dsimp only
    split
    · exact softDown.bind fun _ => hrest
    · exact hrest

theorem create (state : ProcessorState) (parent : Option Slot) :
    Oblivious (create state parent) := by
  refine (look fun _ _ => rfl).bind fun allocated => ?_
  cases allocated with
  | none => exact pure _
  | some slotAndTable =>
    obtain ⟨h, processes⟩ := slotAndTable
    have hlast (pid : Pid) : Oblivious (do
        Action.attempt (·.makeReady h)
        Action.attempt fun k => do return { k with liveCount := ← Word.succ k.liveCount }
        Action.note (.created pid (← Action.look fun k => parent.map k.pidAt))
        return some h : Action Kernel (Option Slot)) := by
      refine (makeReady h).bind fun _ => (attempt fun t k => ?_).bind fun _ =>
        (look fun _ _ => rfl).bind fun _ => (note _).bind fun _ => pure _
      show (do return { k.withTape t with liveCount := ← Word.succ k.liveCount } :
        Except Abort Kernel) = _
      cases Word.succ k.liveCount <;> rfl
    refine (look fun _ _ => rfl).bind fun last => (check _).bind fun pid =>
      (change fun _ _ => rfl).bind fun _ => (attempt fun t k => ?_).bind fun _ => ?_
    · dsimp only [withTape]
      cases k.pids.insert pid h <;> rfl
    · cases parent with
      | none => exact hlast pid
      | some p => exact (change fun _ _ => rfl).bind fun _ => hlast pid

theorem leaveQueue (h : Slot) : Oblivious (leaveQueue h) := by
  have hwithdraw : Oblivious (Functor.discard (WaitRoom.onKernel (WaitRoom.withdraw h)) :
      Action Kernel Unit) := (onKernel _).discard
  refine (look fun _ _ => rfl).bind fun d => ?_
  dsimp only
  cases d.wait with
  | none => exact change fun _ _ => rfl
  | semaphore =>
    cases d.waitsOn with
    | some id => exact (add id 1).bind fun _ => hwithdraw
    | none => exact hwithdraw
  | clock => exact (add .clock 1).bind fun _ => hwithdraw.bind fun _ => softDown
  | device => exact hwithdraw.bind fun _ => softDown

theorem retire (h : Slot) : Oblivious (retire h) := by
  refine (look fun _ _ => rfl).bind fun pid => (change fun _ _ => rfl).bind fun _ =>
    (leaveQueue h).bind fun _ => (change fun t k => ?_).bind fun _ =>
    (change fun _ _ => rfl).bind fun _ => (attempt fun t k => ?_).bind fun _ =>
    (attempt fun t k => ?_).bind fun _ => note _
  · show (if k.current = some h then { k.withTape t with current := none } else k.withTape t) = _
    split <;> rfl
  · show (do return { k.withTape t with processes := ← k.processes.release h } :
      Except Abort Kernel) = _
    cases k.processes.release h <;> rfl
  · show (do return { k.withTape t with liveCount := ← Word.pred k.liveCount } :
      Except Abort Kernel) = _
    cases Word.pred k.liveCount <;> rfl

theorem retireAll (hs : List Slot) : Oblivious (hs.forM Kernel.retire) := by
  induction hs with
  | nil => exact pure _
  | cons h hs ih => exact (retire h).bind fun _ => ih

theorem terminate (pid : Pid) : Oblivious (terminate pid) := by
  refine (look fun _ _ => rfl).bind fun victim => ?_
  cases victim with
  | none => exact pure _
  | some victim =>
    exact (look fun _ _ => rfl).bind fun family => (retireAll family).bind fun _ => pure _

/-- The tape makes no difference to how the action ends. -/
theorem agree {x : Action Kernel α} (hx : Oblivious x) (t : Tape) (k : Kernel) :
    Agree (fun a s b u => b = a ∧ u = s.withTape t) (fun s u => u = s.withTape t) (x k)
      (x (k.withTape t)) := by
  rw [hx]
  cases x k with
  | ok a s log => exact .ok log ⟨rfl, rfl⟩
  | fault cause s log => exact .fault cause log rfl
  | abort cause => exact .abort cause

end Oblivious

/-! ## Calls -/

/-- The second kernel is the first with another tape. -/
def Retaped (t : Tape) (π : Equiv.Perm Slot) (k k' : Kernel) : Prop :=
  π = Equiv.refl Slot ∧ k' = k.withTape t

theorem retaped_refl (t : Tape) (k : Kernel) : Retaped t (Equiv.refl Slot) k (k.withTape t) :=
  ⟨rfl, rfl⟩

/-- Kernels that differ in their tapes go in lockstep. -/
theorem lockstep_retaped (t : Tape) : Lockstep (Retaped t) fun _ _ => True where
  machine := fun ⟨_, hk'⟩ => ⟨t, hk' ▸ rfl⟩
  figures := fun ⟨_, hk'⟩ => hk' ▸ ⟨rfl, rfl, rfl, rfl, rfl, rfl, rfl, rfl⟩
  current := by
    rintro _ k _ ⟨rfl, rfl⟩
    simp [withTape]
  ready := by
    rintro _ k _ ⟨rfl, rfl⟩
    simp [withTape]
  get := by
    rintro _ k _ h ⟨rfl, rfl⟩ -
    exact (k.processes.get h).rename_refl.symm
  live_of_current := fun _ _ => trivial
  live_of_ready := fun _ _ => trivial
  live_of_parent := fun _ _ _ => trivial
  live_congr := fun _ _ => trivial
  setMachine := by
    rintro _ k _ ⟨rfl, rfl⟩ m
    exact ⟨rfl, rfl⟩
  setFigures := by
    rintro _ k _ ⟨rfl, rfl⟩ values chargedUntil tickMicros tickUntil
    exact ⟨rfl, rfl⟩
  modify := by
    rintro _ k _ h ⟨rfl, rfl⟩ - f - -
    exact ⟨rfl, rfl⟩
  dispatch := by
    rintro _ k _ h rest ⟨rfl, rfl⟩ - -
    exact ⟨rfl, by simp [withTape]⟩
  expire := by
    rintro _ k _ h ⟨rfl, rfl⟩ -
    exact ((Oblivious.expire h).agree t k).mono (fun _ _ _ _ h => ⟨rfl, h.2⟩) fun _ _ h => ⟨rfl, h⟩
  suspend := by
    rintro _ k _ h ⟨rfl, rfl⟩ - id
    exact ((Oblivious.suspend id _).agree t k).mono (fun _ _ _ _ h => ⟨rfl, h.2⟩)
      fun _ _ h => ⟨rfl, h⟩
  wakeNext := by
    rintro _ k _ ⟨rfl, rfl⟩ id
    refine ((Oblivious.wakeNext id).agree t k).mono ?_ fun _ _ h => ⟨rfl, h⟩
    rintro woken s _ _ ⟨rfl, rfl⟩
    exact ⟨⟨rfl, rfl⟩, by simp, fun _ _ => trivial⟩
  create := by
    rintro _ k _ p ⟨rfl, rfl⟩ - state
    refine ((Oblivious.create state (some p)).agree t k).mono ?_ fun _ _ h => ⟨rfl, h⟩
    rintro child s _ _ ⟨rfl, rfl⟩
    exact ⟨Equiv.refl Slot, ⟨rfl, rfl⟩, rfl, trivial, by simp, fun _ _ => trivial⟩
  terminate := by
    rintro _ k _ ⟨rfl, rfl⟩ pid
    exact ((Oblivious.terminate pid).agree t k).mono (fun _ _ _ _ h => ⟨h.1, rfl, h.2⟩)
      fun _ _ h => ⟨rfl, h⟩

/-- No call sees the tape. -/
theorem Call.run_withTape (call : Call) : Oblivious call.run := by
  intro t k
  have hagree := (lockstep_retaped t).call (retaped_refl t k) call
  generalize call.run k = o at hagree
  generalize call.run (k.withTape t) = u at hagree
  cases hagree with
  | ok log h =>
    obtain ⟨rfl, π, rfl, rfl⟩ := h
    rfl
  | fault cause log h =>
    obtain ⟨π, rfl, rfl⟩ := h
    rfl
  | abort cause => rfl

/-- A call leaves the tape as it is. -/
theorem Call.tape_eq {call : Call} (h : (call.run k).state? = some k') :
    k'.machine.tape = k.machine.tape := by
  have hsame := Call.run_withTape call k.machine.tape k
  have hk : k.withTape k.machine.tape = k := rfl
  rw [hk] at hsame
  cases hrun : call.run k with
  | ok decision s log =>
    rw [hrun] at h hsame
    obtain rfl := Option.some.inj h
    injection hsame with _ hs _
    rw [hs]
    rfl
  | fault cause s log =>
    rw [hrun] at h hsame
    obtain rfl := Option.some.inj h
    injection hsame with _ hs _
    rw [hs]
    rfl
  | abort cause =>
    rw [hrun] at h
    cases h

end Kernel

end Nucleus
