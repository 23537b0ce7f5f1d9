import Nucleus.Log.Notice

/-!
# Actions

A step of the nucleus on a state either finishes with a value, or stops at a fault, or breaks an
internal check. The first two leave a state and the notices given on the way; nothing is left of
the last. Actions are composed in order, and what follows a fault or an abort does not happen.
-/

namespace Nucleus

/-- How an action on a state of type `σ` ends. -/
inductive Outcome (σ α : Type) where
  /-- It finished with a value. -/
  | ok (value : α) (state : σ) (log : List Notice)
  /-- It stopped at a fault. -/
  | fault (cause : Fault) (state : σ) (log : List Notice)
  /-- It broke an internal check. -/
  | abort (cause : Abort)

namespace Outcome

variable {σ τ α : Type}

/-- The outcome with earlier notices put before its own. -/
def after (earlier : List Notice) : Outcome σ α → Outcome σ α
  | ok value state log => ok value state (earlier ++ log)
  | fault cause state log => fault cause state (earlier ++ log)
  | abort cause => abort cause

/-- The outcome with its state changed by `f`. -/
def mapState (f : σ → τ) : Outcome σ α → Outcome τ α
  | ok value state log => ok value (f state) log
  | fault cause state log => fault cause (f state) log
  | abort cause => abort cause

/-- The state that is left, if one is. -/
def state? : Outcome σ α → Option σ
  | ok _ state _ => some state
  | fault _ state _ => some state
  | abort _ => none

/-- The value, or the fault that took its place, if the outcome is not an abort. -/
def result? : Outcome σ α → Option (Except Fault α)
  | ok value _ _ => some (.ok value)
  | fault cause _ _ => some (.error cause)
  | abort _ => none

@[simp] theorem after_nil (o : Outcome σ α) : o.after [] = o := by
  cases o <;> rfl

theorem after_eq_ok_iff {o : Outcome σ α} {earlier log : List Notice} {a : α} {s : σ} :
    o.after earlier = .ok a s log ↔ ∃ rest, o = .ok a s rest ∧ log = earlier ++ rest := by
  cases o <;> simp [after, eq_comm, and_assoc]

end Outcome

/-- A step on a state of type `σ`. -/
def Action (σ α : Type) : Type := σ → Outcome σ α

namespace Action

variable {σ τ α β : Type}

/-- Run an action. -/
def run (x : Action σ α) (s : σ) : Outcome σ α := x s

/-- Do one action and then the one chosen by its value. -/
def andThen (x : Action σ α) (f : α → Action σ β) : Action σ β := fun s =>
  match x s with
  | .ok value s log => (f value s).after log
  | .fault cause s log => .fault cause s log
  | .abort cause => .abort cause

instance : Monad (Action σ) where
  pure value := fun s => .ok value s []
  bind := andThen

/-- Look at the state. -/
def look (f : σ → α) : Action σ α := fun s => .ok (f s) s []

/-- Change the state. -/
def change (f : σ → σ) : Action σ Unit := fun s => .ok () (f s) []

/-- Change the state by a step that may break a check. -/
def attempt (f : σ → Except Abort σ) : Action σ Unit := fun s =>
  match f s with
  | .ok s => .ok () s []
  | .error cause => .abort cause

/-- Give a notice. -/
def note (notice : Notice) : Action σ Unit := fun s => .ok () s [notice]

/-- Stop at a fault. -/
def fail (cause : Fault) : Action σ α := fun s => .fault cause s []

/-- The value of a check that may break. -/
def check (x : Except Abort α) : Action σ α := fun s =>
  match x with
  | .ok value => .ok value s []
  | .error cause => .abort cause

/-- Do an action and hand on the fault at which it stops, if it does. -/
def recover (x : Action σ α) : Action σ (Except Fault α) := fun s =>
  match x s with
  | .ok value s log => .ok (.ok value) s log
  | .fault cause s log => .ok (.error cause) s log
  | .abort cause => .abort cause

/-- Do an action on a part of the state. -/
def within (part : σ → τ) (replace : σ → τ → σ) (x : Action τ α) : Action σ α := fun s =>
  (x (part s)).mapState (replace s)

theorem pure_apply (value : α) (s : σ) : (pure value : Action σ α) s = .ok value s [] := rfl

theorem bind_apply (x : Action σ α) (f : α → Action σ β) (s : σ) :
    (x >>= f) s =
      match x s with
      | .ok value s log => (f value s).after log
      | .fault cause s log => .fault cause s log
      | .abort cause => .abort cause := rfl

@[simp] theorem pure_bind_apply (value : α) (f : α → Action σ β) (s : σ) :
    ((pure value : Action σ α) >>= f) s = f value s := by
  simp [bind_apply, pure_apply]

@[simp] theorem look_bind_apply (f : σ → α) (g : α → Action σ β) (s : σ) :
    (look f >>= g) s = g (f s) s := by
  simp [bind_apply, look]

@[simp] theorem change_bind_apply (f : σ → σ) (g : Unit → Action σ β) (s : σ) :
    (change f >>= g) s = g () (f s) := by
  simp [bind_apply, change]

@[simp] theorem note_bind_apply (notice : Notice) (g : Unit → Action σ β) (s : σ) :
    (note notice >>= g) s = (g () s).after [notice] := rfl

@[simp] theorem fail_bind_apply (cause : Fault) (g : α → Action σ β) (s : σ) :
    (fail cause >>= g) s = .fault cause s [] := rfl

theorem attempt_bind_apply (f : σ → Except Abort σ) (g : Unit → Action σ β) (s : σ) :
    (attempt f >>= g) s =
      match f s with
      | .ok s => g () s
      | .error cause => .abort cause := by
  cases h : f s <;> simp [bind_apply, attempt, h]

theorem check_bind_apply (x : Except Abort α) (g : α → Action σ β) (s : σ) :
    (check x >>= g) s =
      match x with
      | .ok value => g value s
      | .error cause => .abort cause := by
  cases x <;> simp [bind_apply, check]

instance : LawfulMonad (Action σ) := LawfulMonad.mk' (Action σ)
  (fun x => by
    funext s
    simp only [Functor.map, andThen, Function.comp]
    cases x s <;> simp [Outcome.after])
  (fun x f => by
    funext s
    simp [bind, andThen, pure])
  (fun x f g => by
    funext s
    simp only [bind, andThen]
    cases x s with
    | ok value s log =>
      simp only [Outcome.after]
      cases f value s with
      | ok value s later =>
        dsimp only
        cases g value s <;> simp
      | fault => rfl
      | abort => rfl
    | fault => rfl
    | abort => rfl)

end Action

end Nucleus
