import Nucleus.Action

/-!
# How actions end

`Outcome.Ends` says of an outcome what holds if it has a value, if it stops at a fault and if it
breaks a check, whatever notices were given. It is computed through every way of composing actions
(`ends_bind` and the lemmas around it), so the specification of an action is proved by running it
symbolically and using the specifications of its parts through `Ends.mono`. `Outcome.Finishes` is
the case of an action that neither stops nor breaks a check, and `Outcome.Always` says only what
holds of any state that is left.
-/

namespace Nucleus

namespace Outcome

variable {σ τ α β : Type}

/-- What holds at each of the three ends of an action. -/
def Ends (o : Outcome σ α) (ok : α → σ → Prop) (fault : Fault → σ → Prop)
    (abort : Abort → Prop) : Prop :=
  match o with
  | .ok value state _ => ok value state
  | .fault cause state _ => fault cause state
  | .abort cause => abort cause

/-- The action has a value, and `ok` holds of it and of the state that is left. -/
def Finishes (o : Outcome σ α) (ok : α → σ → Prop) : Prop :=
  o.Ends ok (fun _ _ => False) (fun _ => False)

/-- Whatever state is left has a property. -/
def Always (o : Outcome σ α) (P : σ → Prop) : Prop :=
  o.Ends (fun _ s => P s) (fun _ s => P s) fun _ => True

variable {o : Outcome σ α} {ok ok' : α → σ → Prop} {fault fault' : Fault → σ → Prop}
  {abort abort' : Abort → Prop} {P Q : σ → Prop}

@[simp] theorem ends_ok {value : α} {s : σ} {log : List Notice} :
    (Outcome.ok value s log).Ends ok fault abort ↔ ok value s := Iff.rfl

@[simp] theorem ends_fault {cause : Fault} {s : σ} {log : List Notice} :
    (Outcome.fault cause s log : Outcome σ α).Ends ok fault abort ↔ fault cause s := Iff.rfl

@[simp] theorem ends_abort {cause : Abort} :
    (Outcome.abort cause : Outcome σ α).Ends ok fault abort ↔ abort cause := Iff.rfl

@[simp] theorem ends_after {earlier : List Notice} :
    (o.after earlier).Ends ok fault abort ↔ o.Ends ok fault abort := by
  cases o <;> exact Iff.rfl

theorem Ends.mono (h : o.Ends ok fault abort) (hok : ∀ a s, ok a s → ok' a s)
    (hfault : ∀ c s, fault c s → fault' c s) (habort : ∀ c, abort c → abort' c) :
    o.Ends ok' fault' abort' := by
  cases o with
  | ok value s log => exact hok _ _ h
  | fault cause s log => exact hfault _ _ h
  | abort cause => exact habort _ h

/-- A finished action satisfies every specification whose part for values it satisfies. -/
theorem Finishes.ends (h : o.Finishes ok) (hok : ∀ a s, ok a s → ok' a s) :
    o.Ends ok' fault' abort' :=
  Ends.mono h hok (fun _ _ => False.elim) (fun _ => False.elim)

theorem Finishes.mono (h : o.Finishes ok) (hok : ∀ a s, ok a s → ok' a s) : o.Finishes ok' :=
  h.ends hok

theorem Always.mono (h : o.Always P) (hPQ : ∀ s, P s → Q s) : o.Always Q :=
  Ends.mono h (fun _ => hPQ) (fun _ => hPQ) fun _ _ => trivial

theorem Finishes.and (h : o.Finishes ok) (h' : o.Finishes ok') :
    o.Finishes fun a s => ok a s ∧ ok' a s := by
  cases o with
  | ok value s log => exact ⟨h, h'⟩
  | fault cause s log => exact h
  | abort cause => exact h

/-- What is known of every state that is left holds besides what is known of each end. -/
theorem Ends.and_always (h : o.Ends ok fault abort) (hP : o.Always P) :
    o.Ends (fun a s => ok a s ∧ P s) (fun c s => fault c s ∧ P s) abort := by
  cases o with
  | ok value s log => exact ⟨h, hP⟩
  | fault cause s log => exact ⟨h, hP⟩
  | abort cause => exact h

theorem Finishes.and_always (h : o.Finishes ok) (hP : o.Always P) :
    o.Finishes fun a s => ok a s ∧ P s :=
  Ends.mono (Ends.and_always h hP) (fun _ _ h => h) (fun _ _ h => h.1) fun _ h => h

theorem Finishes.exists (h : o.Finishes ok) : ∃ a s log, o = .ok a s log ∧ ok a s := by
  cases o with
  | ok value s log => exact ⟨value, s, log, rfl, h⟩
  | fault cause s log => exact False.elim h
  | abort cause => exact False.elim h

/-- What is left after a call that did not break a check. -/
theorem Ends.of_state? {s : σ} {P : σ → Prop}
    (h : o.Ends (fun _ t => P t) (fun _ t => P t) abort) (hs : o.state? = some s) : P s := by
  cases o with
  | ok value t log => cases hs; exact h
  | fault cause t log => cases hs; exact h
  | abort cause => cases hs

/-- A call that breaks no check leaves a state. -/
theorem Ends.exists_state? {P : σ → Prop}
    (h : o.Ends (fun _ s => P s) (fun _ s => P s) fun _ => False) :
    ∃ s, o.state? = some s ∧ P s := by
  cases o with
  | ok value s log => exact ⟨s, rfl, h⟩
  | fault cause s log => exact ⟨s, rfl, h⟩
  | abort cause => exact False.elim h

end Outcome

namespace Action

open Outcome

variable {σ τ α β : Type} {ok : α → σ → Prop} {ok' : β → σ → Prop} {done : Unit → σ → Prop}
  {fault : Fault → σ → Prop} {abort : Abort → Prop} {s : σ}

@[simp] theorem ends_bind {x : Action σ α} {f : α → Action σ β} :
    ((x >>= f) s).Ends ok' fault abort ↔
      (x s).Ends (fun a t => (f a t).Ends ok' fault abort) fault abort := by
  rw [bind_apply]
  cases x s with
  | ok value t log => exact ends_after
  | fault cause t log => exact Iff.rfl
  | abort cause => exact Iff.rfl

@[simp] theorem ends_pure {value : α} :
    ((pure value : Action σ α) s).Ends ok fault abort ↔ ok value s := Iff.rfl

@[simp] theorem ends_map {x : Action σ α} {f : α → β} :
    ((f <$> x) s).Ends ok' fault abort ↔
      (x s).Ends (fun a t => ok' (f a) t) fault abort := by
  rw [map_eq_pure_bind, ends_bind]
  exact Iff.rfl

@[simp] theorem ends_discard {x : Action σ α} :
    ((discard x : Action σ Unit) s).Ends done fault abort ↔
      (x s).Ends (fun _ t => done () t) fault abort := ends_map

@[simp] theorem ends_look {f : σ → α} :
    (look f s).Ends ok fault abort ↔ ok (f s) s := Iff.rfl

@[simp] theorem ends_change {f : σ → σ} :
    (change f s).Ends done fault abort ↔ done () (f s) := Iff.rfl

@[simp] theorem ends_note {notice : Notice} :
    (note notice s).Ends done fault abort ↔ done () s := Iff.rfl

/-- A notice that is given only under a condition does not matter. -/
theorem ends_if_note {c : Prop} [Decidable c] {notice : Notice} {f : Unit → Action σ β}
    (h : (f () s).Ends ok' fault abort) :
    ((if c then note notice >>= f else f ()) s).Ends ok' fault abort := by
  split
  · exact ends_bind.2 h
  · exact h

@[simp] theorem ends_fail {cause : Fault} :
    ((fail cause : Action σ α) s).Ends ok fault abort ↔ fault cause s := Iff.rfl

@[simp] theorem ends_attempt {f : σ → Except Abort σ} :
    (attempt f s).Ends done fault abort ↔
      match f s with
      | .ok t => done () t
      | .error cause => abort cause := by
  unfold attempt
  cases f s <;> exact Iff.rfl

theorem ends_attempt_ok {f : σ → Except Abort σ} {t : σ} (h : f s = .ok t) (ht : done () t) :
    (attempt f s).Ends done fault abort := by
  rw [ends_attempt, h]
  exact ht

@[simp] theorem ends_check {x : Except Abort α} :
    (check x s).Ends ok fault abort ↔
      match x with
      | .ok value => ok value s
      | .error cause => abort cause := by
  cases x <;> exact Iff.rfl

@[simp] theorem ends_recover {x : Action σ α} {caught : Except Fault α → σ → Prop} :
    (recover x s).Ends caught fault abort ↔
      (x s).Ends (fun a t => caught (.ok a) t) (fun c t => caught (.error c) t) abort := by
  unfold recover
  cases x s <;> exact Iff.rfl

@[simp] theorem ends_within {part : σ → τ} {replace : σ → τ → σ} {x : Action τ α} :
    (within part replace x s).Ends ok fault abort ↔
      (x (part s)).Ends (fun a t => ok a (replace s t)) (fun c t => fault c (replace s t))
        abort := by
  unfold within
  cases x (part s) <;> exact Iff.rfl

/-- A specification of a composed action, from one of its first part. -/
theorem ends_andThen {x : Action σ α} {f : α → Action σ β} {between : α → σ → Prop}
    (first : (x s).Ends between fault abort)
    (second : ∀ a t, between a t → (f a t).Ends ok' fault abort) :
    ((x >>= f) s).Ends ok' fault abort :=
  ends_bind.2 (Ends.mono first second (fun _ _ h => h) (fun _ h => h))

end Action

end Nucleus
