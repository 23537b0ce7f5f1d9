import Nucleus.Proofs.Kernel.Reachable

/-!
# Histories

A run can be recorded in many ways, of which its log is one. `Kernel.History` is a run together with
what has been recorded of it, call by call; every run has one for each way of recording.
-/

namespace Nucleus.Kernel

variable {ρ : Type} {record : Call → Kernel → Kernel → ρ → ρ} {r₀ r r' : ρ} {k₀ k k' : Kernel}

/-- A run of calls and what is recorded of it. Between the calls anything may happen to the
machine. -/
inductive History (record : Call → Kernel → Kernel → ρ → ρ) (r₀ : ρ) (k₀ : Kernel) :
    ρ → Kernel → Prop
  | start : History record r₀ k₀ r₀ k₀
  | call {r : ρ} {k k' : Kernel} (hrun : History record r₀ k₀ r k) (call : Call)
      (h : (call.run k).state? = some k') : History record r₀ k₀ (record call k k' r) k'
  | machine {r : ρ} {k : Kernel} (hrun : History record r₀ k₀ r k) (machine : Machine) :
      History record r₀ k₀ r { k with machine }

theorem History.sound (hrun : History record r₀ k₀ r k) (hk₀ : k₀.Sound) : k.Sound := by
  induction hrun with
  | start => exact hk₀
  | call _ call h ih => exact ih.step (.call call h)
  | machine _ machine ih => exact ih.step (.machine machine)

/-- Every run has a history. -/
theorem exists_history_of_steps (record : Call → Kernel → Kernel → ρ → ρ) (r₀ : ρ)
    (hsteps : Relation.ReflTransGen Step k₀ k) : ∃ r, History record r₀ k₀ r k := by
  induction hsteps with
  | refl => exact ⟨r₀, .start⟩
  | tail _ hstep ih =>
    obtain ⟨r, hrun⟩ := ih
    cases hstep with
    | call call h => exact ⟨_, hrun.call call h⟩
    | machine machine => exact ⟨r, hrun.machine machine⟩

/-- The record and the state after a sequence of calls, if none of them aborts. -/
def replayHistory (record : Call → Kernel → Kernel → ρ → ρ) (calls : List Call)
    (start : ρ × Kernel) : Option (ρ × Kernel) :=
  calls.foldlM (fun (r, k) call => (call.run k).state?.map fun k' => (record call k k' r, k')) start

theorem History.replay {calls : List Call} (hrun : History record r₀ k₀ r k)
    (h : replayHistory record calls (r, k) = some (r', k')) : History record r₀ k₀ r' k' := by
  induction calls generalizing r k with
  | nil =>
    cases h
    exact hrun
  | cons call calls ih =>
    obtain ⟨⟨r₁, k₁⟩, hcall, hcalls⟩ := Option.bind_eq_some_iff.1 h
    obtain ⟨k₁, hk₁, heq⟩ := Option.map_eq_some_iff.1 hcall
    cases heq
    exact ih (hrun.call call hk₁) hcalls

/-- What a start-up and a sequence of calls are computed to lead to is the end of a history. -/
theorem exists_history {p : ρ → Kernel → Bool} (record : Call → Kernel → Kernel → ρ → ρ) (r₀ : ρ)
    (calls : List Call)
    (h : ((boot (.new Machine.new .usual)).state?.bind fun k₀ =>
      replayHistory record calls (r₀, k₀)).any (fun (r, k) => p r k) = true) :
    ∃ k₀ r k, (boot (.new Machine.new .usual)).state? = some k₀ ∧ History record r₀ k₀ r k ∧
      p r k = true := by
  obtain ⟨⟨r, k⟩, hk, hp⟩ := (Option.any_eq_true _ _).1 h
  obtain ⟨k₀, hboot, hcalls⟩ := Option.bind_eq_some_iff.1 hk
  exact ⟨k₀, r, k, hboot, History.start.replay hcalls, hp⟩

end Nucleus.Kernel
