import Nucleus.Proofs.Kernel.Boot
import Nucleus.Proofs.Kernel.Consistency
import Nucleus.Proofs.Kernel.Delivery

/-!
# Reachable states

A run of the nucleus starts empty, may boot, and goes on with calls of any kind, also after calls
that stopped at a fault; only an abort ends it. Between calls anything may happen to the machine.
Every state of a run has the invariant (`Reachable.sound`).
-/

namespace Nucleus.Kernel

open Outcome

variable {k k' : Kernel}

/-- A call of the nucleus. -/
inductive Call where
  /-- An event happens to the running process or to the waiting processor. -/
  | deliver (event : Event)
  /-- A trap is handled whatever stands in the old area of its vector. -/
  | dispatch (vector : TrapVector)
  /-- It is decided what runs next. -/
  | schedule

/-- What a call does. -/
def Call.run : Call → Action Kernel Decision
  | deliver event => Kernel.deliver event
  | dispatch vector => Kernel.dispatch vector
  | schedule => Kernel.schedule

/-- One step of a run. -/
inductive Step (k : Kernel) : Kernel → Prop
  /-- A call has ended with a decision or at a fault. -/
  | call {k' : Kernel} (call : Call) (h : (call.run k).state? = some k') : Step k k'
  /-- Memory, registers and the clock have changed in any way. -/
  | machine (machine : Machine) : Step k { k with machine }

/-- The states of the nucleus in all its runs. -/
inductive Reachable : Kernel → Prop
  | new (machine : Machine) (config : Config) : Reachable (.new machine config)
  | boot {k k' : Kernel} (hk : Reachable k) (h : (Kernel.boot k).state? = some k') : Reachable k'
  | step {k k' : Kernel} (hk : Reachable k) (h : Step k k') : Reachable k'

theorem Settles.sound {broken : Prop} {o : Outcome Kernel Decision} (ho : k.Settles broken o)
    (h : o.state? = some k') : k'.Sound :=
  Ends.of_state? (ho.mono (fun _ _ h => h.1.1) (fun _ _ h => h.1.1) fun _ h => h) h

/-- Every call keeps the invariant, and stops the machine only if it has to. -/
theorem Sound.call (hk : k.Sound) (call : Call) : ∃ broken, k.Settles broken (call.run k) := by
  cases call with
  | deliver event => exact ⟨_, hk.deliver event⟩
  | dispatch vector => exact ⟨_, hk.dispatch vector⟩
  | schedule => exact ⟨False, hk.settles_schedule id⟩

theorem Sound.step (hk : k.Sound) (h : k.Step k') : k'.Sound := by
  cases h with
  | call call h =>
    obtain ⟨broken, hsettles⟩ := hk.call call
    exact hsettles.sound h
  | machine machine => exact hk.congr (.setMachine k machine)

theorem sound_of_boot {machine : Machine} {config : Config}
    (hboot : (Kernel.boot (.new machine config)).state? = some k) : k.Sound :=
  (sound_new machine config).boot.of_state? hboot

theorem Reachable.sound (hk : k.Reachable) : k.Sound := by
  induction hk with
  | new machine config => exact sound_new machine config
  | boot hk h ih => exact ih.boot.of_state? h
  | step hk h ih => exact ih.step h

/-! ## Sequences of calls -/

/-- The state after a sequence of calls, if none of them aborts. -/
def replay (calls : List Call) (k : Kernel) : Option Kernel :=
  calls.foldlM (fun k call => (call.run k).state?) k

theorem steps_of_replay {calls : List Call} (h : k.replay calls = some k') :
    Relation.ReflTransGen Step k k' := by
  induction calls generalizing k with
  | nil =>
    cases h
    exact .refl
  | cons call calls ih =>
    obtain ⟨k₁, hcall, hcalls⟩ := Option.bind_eq_some_iff.1 h
    exact .head (.call call hcall) (ih hcalls)

theorem Reachable.replay {calls : List Call} (hk : k.Reachable)
    (h : k.replay calls = some k') : k'.Reachable := by
  induction calls generalizing k with
  | nil =>
    cases h
    exact hk
  | cons call calls ih =>
    obtain ⟨k₁, hcall, hcalls⟩ := Option.bind_eq_some_iff.1 h
    exact ih (hk.step (.call call hcall)) hcalls

/-- The state after a start-up on the usual machine and a sequence of calls. -/
def bootAndReplay (calls : List Call) : Option Kernel :=
  (boot (.new Machine.new .usual)).state?.bind (replay calls)

/-- What a start-up and a sequence of calls are computed to lead to is reachable. -/
theorem exists_reachable {p : Kernel → Bool} (calls : List Call)
    (h : (bootAndReplay calls).any p = true) : ∃ k : Kernel, k.Reachable ∧ p k = true := by
  obtain ⟨k, hk, hp⟩ := (Option.any_eq_true p _).1 h
  obtain ⟨k₀, hboot, hcalls⟩ := Option.bind_eq_some_iff.1 hk
  exact ⟨k, (Reachable.boot (.new Machine.new .usual) hboot).replay hcalls, hp⟩

/-- What a sequence of calls after a start-up that is not stopped is computed to lead to. -/
theorem exists_steps {p : Kernel → Bool} (calls : List Call)
    (h : (match boot (.new Machine.new .usual) with
      | .ok () k₀ _ => (replay calls k₀).any p
      | .fault _ _ _ | .abort _ => false) = true) :
    ∃ k₀ log k, boot (.new Machine.new .usual) = .ok () k₀ log ∧
      Relation.ReflTransGen Step k₀ k ∧ p k = true := by
  split at h
  · rename_i k₀ log hboot
    obtain ⟨k, hcalls, hp⟩ := (Option.any_eq_true p _).1 h
    exact ⟨k₀, log, k, hboot, steps_of_replay hcalls, hp⟩
  · cases h
  · cases h

/-! ## Balance -/

/-- In every state of every run the books balance. -/
theorem balanced_of_reachable (hk : k.Reachable) : k.Balanced := hk.sound.balanced

/-- The books balance after the root process has asked for a unit that nobody can give, a call that
reports a deadlock. -/
theorem balanced_of_reachable_blocked : ∃ k : Kernel, k.Reachable ∧ k.liveCount = 1 ∧
    k.waits.waiting (.user 0x20000100) = [0] ∧ k.Balanced := by
  obtain ⟨k, hk, htest⟩ := exists_reachable
    (p := fun k => k.liveCount = 1 ∧ k.waits.waiting (.user 0x20000100) = [0])
    [.schedule, .deliver (.request 4 0x20000100 0 0 false)] (by decide +kernel)
  obtain ⟨hlive, hwaiting⟩ := of_decide_eq_true htest
  exact ⟨k, hk, hlive, hwaiting, balanced_of_reachable hk⟩

/-! ## Aborts -/

/-- An event makes the nucleus abort in a run exactly if it names a line or a unit that does not
exist, if the running process asks in kernel mode for a child whose state runs past the end of the
address space, or if it has a handler for the exception with an area that does. -/
theorem aborts_iff_of_reachable (hk : k.Reachable) (hlast : k.lastPid ≠ Word.allOnes)
    (event : Event) :
    (∃ cause, deliver event k = .abort cause) ↔
      event.OutOfRange ∨
      (k.current ≠ none ∧ ∃ a1 a2 a3, event = .request 1 a1 a2 a3 false ∧ 0xffffff77 < a1) ∨
      ∃ h c handler, k.current = some h ∧ event.raises? = some c ∧
        (k.processes.get h).handler c = some handler ∧
        (0xffffff77 < handler.oldArea ∨ 0xffffff77 < handler.newArea) :=
  hk.sound.aborts_iff hlast event

/-- The last address at which the state of a child may stand is `0xffffff77`. -/
theorem aborts_iff_of_reachable_create : ∃ k : Kernel, k.Reachable ∧ k.lastPid ≠ Word.allOnes ∧
    (∃ cause, deliver (.request 1 0xffffff78 0 0 false) k = .abort cause) ∧
    ¬ ∃ cause, deliver (.request 1 0xffffff77 0 0 false) k = .abort cause := by
  obtain ⟨k, hk, htest⟩ := exists_reachable
    (p := fun k => k.lastPid ≠ Word.allOnes ∧ k.current ≠ none) [.schedule] (by decide +kernel)
  obtain ⟨hlast, hcurrent⟩ := of_decide_eq_true htest
  refine ⟨k, hk, hlast, ?_, ?_⟩
  · exact (aborts_iff_of_reachable hk hlast _).2
      (.inr (.inl ⟨hcurrent, 0xffffff78, 0, 0, rfl, by decide⟩))
  · intro haborts
    rcases (aborts_iff_of_reachable hk hlast _).1 haborts with
      hrange | ⟨-, a1, a2, a3, heq, hover⟩ | ⟨h, c, handler, -, hraises, -⟩
    · exact hrange
    · cases heq
      exact absurd hover (by decide)
    · cases hraises

end Nucleus.Kernel
