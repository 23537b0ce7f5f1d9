import Nucleus.Proofs.Notices

/-!
# Two actions side by side

`Outcome.Agree` says of two outcomes that both have a value, both stop at the same fault or both
break the same check, after the same notices, and how the values and the states that are left are
related. Like `Outcome.Ends` it is carried through the ways of composing actions (`agree_bind` and
the lemmas around it). Two actions that agree with equal values differ in nothing that can be
observed of them.
-/

namespace Nucleus

namespace Outcome

variable {σ τ α β : Type}

/-- Two actions end in the same way, after the same notices. -/
inductive Agree (ok : α → σ → β → τ → Prop) (fault : σ → τ → Prop) :
    Outcome σ α → Outcome τ β → Prop
  | ok {a : α} {s : σ} {b : β} {t : τ} (log : List Notice) (h : ok a s b t) :
    Agree ok fault (.ok a s log) (.ok b t log)
  | fault {s : σ} {t : τ} (cause : Fault) (log : List Notice) (h : fault s t) :
    Agree ok fault (.fault cause s log) (.fault cause t log)
  | abort (cause : Abort) : Agree ok fault (.abort cause) (.abort cause)

variable {o : Outcome σ α} {u : Outcome τ β} {ok ok' : α → σ → β → τ → Prop}
  {fault fault' : σ → τ → Prop}

namespace Agree

theorem mono (h : Agree ok fault o u) (hok : ∀ a s b t, ok a s b t → ok' a s b t)
    (hfault : ∀ s t, fault s t → fault' s t) : Agree ok' fault' o u := by
  cases h with
  | ok log h => exact .ok log (hok _ _ _ _ h)
  | fault cause log h => exact .fault cause log (hfault _ _ h)
  | abort cause => exact .abort cause

theorem after (h : Agree ok fault o u) (earlier : List Notice) :
    Agree ok fault (o.after earlier) (u.after earlier) := by
  cases h with
  | ok log h => exact .ok _ h
  | fault cause log h => exact .fault cause _ h
  | abort cause => exact .abort cause

/-- What is known of the ends of the first action holds besides. -/
theorem and_ends {okEnd : α → σ → Prop} {faultEnd : Fault → σ → Prop} {abort : Abort → Prop}
    (h : Agree ok fault o u) (hends : o.Ends okEnd faultEnd abort) :
    Agree (fun a s b t => ok a s b t ∧ okEnd a s) fault o u := by
  cases h with
  | ok log h => exact .ok log ⟨h, hends⟩
  | fault cause log h => exact .fault cause log h
  | abort cause => exact .abort cause

/-- Two actions that finish agree if they give the same notices. -/
theorem of_finishes {okEnd : α → σ → Prop} {okEnd' : β → τ → Prop}
    {told : α → σ → List Notice → Prop} {told' : β → τ → List Notice → Prop}
    {faultTold : Fault → σ → List Notice → Prop} {faultTold' : Fault → τ → List Notice → Prop}
    (ho : o.Finishes okEnd) (htold : o.Tells told faultTold) (hu : u.Finishes okEnd')
    (htold' : u.Tells told' faultTold')
    (h : ∀ {a s log b t log'}, okEnd a s → told a s log → okEnd' b t → told' b t log' →
      log' = log ∧ ok a s b t) : Agree ok fault o u := by
  obtain ⟨a, s, log, rfl, hs⟩ := ho.exists
  obtain ⟨b, t, log', rfl, ht⟩ := hu.exists
  obtain ⟨rfl, hok⟩ := h hs htold ht htold'
  exact .ok log' hok

end Agree

end Outcome

namespace Action

open Outcome

variable {σ τ σ' τ' α β α' β' : Type} {s : σ} {t : τ} {ok : α → σ → β → τ → Prop}
  {ok' : α' → σ → β' → τ → Prop} {fault : σ → τ → Prop}

/-- One action after another. -/
theorem agree_bind {x : Action σ α} {y : Action τ β} {f : α → Action σ α'} {g : β → Action τ β'}
    (hx : Agree ok fault (x s) (y t))
    (hf : ∀ a s b t, ok a s b t → Agree ok' fault (f a s) (g b t)) :
    Agree ok' fault ((x >>= f) s) ((y >>= g) t) := by
  rw [bind_apply, bind_apply]
  generalize x s = o at hx
  generalize y t = u at hx
  cases hx with
  | ok log h => exact (hf _ _ _ _ h).after log
  | fault cause log h => exact .fault cause log h
  | abort cause => exact .abort cause

theorem agree_pure {a : α} {b : β} (h : ok a s b t) :
    Agree ok fault ((pure a : Action σ α) s) ((pure b : Action τ β) t) := .ok [] h

theorem agree_discard {x : Action σ α} {y : Action τ β} {R : σ → τ → Prop}
    (hx : Agree (fun _ s _ t => R s t) fault (x s) (y t)) :
    Agree (fun _ s _ t => R s t) fault ((discard x : Action σ Unit) s)
      ((discard y : Action τ Unit) t) := by
  have hdiscard : ∀ {υ γ : Type} (z : Action υ γ),
      (discard z : Action υ Unit) = z >>= fun _ => pure () := fun z => by
    show Functor.mapConst PUnit.unit z = _
    rw [LawfulFunctor.map_const, Function.comp_apply, map_eq_pure_bind]
  rw [hdiscard, hdiscard]
  exact agree_bind hx fun _ _ _ _ h => agree_pure h

theorem agree_change {f : σ → σ} {g : τ → τ} {done : Unit → σ → Unit → τ → Prop}
    (h : done () (f s) () (g t)) : Agree done fault (change f s) (change g t) := .ok [] h

theorem agree_note {notice : Notice} {done : Unit → σ → Unit → τ → Prop} (h : done () s () t) :
    Agree done fault (note notice s) (note notice t) := .ok [notice] h

theorem agree_fail (cause : Fault) (h : fault s t) :
    Agree ok fault ((fail cause : Action σ α) s) ((fail cause : Action τ β) t) := .fault cause [] h

theorem agree_attempt {f : σ → Except Abort σ} {g : τ → Except Abort τ}
    {done : Unit → σ → Unit → τ → Prop}
    (h : (∃ s' t', f s = .ok s' ∧ g t = .ok t' ∧ done () s' () t') ∨
      ∃ cause, f s = .error cause ∧ g t = .error cause) :
    Agree done fault (attempt f s) (attempt g t) := by
  unfold attempt
  obtain ⟨s', t', hf, hg, hdone⟩ | ⟨cause, hf, hg⟩ := h
  · rw [hf, hg]
    exact .ok [] hdone
  · rw [hf, hg]
    exact .abort cause

theorem agree_check {x : Except Abort α} {ok : α → σ → α → τ → Prop}
    (h : ∀ a, x = .ok a → ok a s a t) : Agree ok fault (check x s) (check x t) := by
  unfold check
  cases x with
  | ok a => exact .ok [] (h a rfl)
  | error cause => exact .abort cause

theorem agree_recover {x : Action σ α} {y : Action τ β}
    {caught : Except Fault α → σ → Except Fault β → τ → Prop}
    (hx : Agree (fun a s b t => caught (.ok a) s (.ok b) t)
      (fun s t => ∀ cause, caught (.error cause) s (.error cause) t) (x s) (y t)) :
    Agree caught fault (recover x s) (recover y t) := by
  unfold recover
  generalize x s = o at hx
  generalize y t = u at hx
  cases hx with
  | ok log h => exact .ok log h
  | fault cause log h => exact .ok log (h cause)
  | abort cause => exact .abort cause

end Action

end Nucleus
