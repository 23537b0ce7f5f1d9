import Nucleus.Proofs.Outcome

/-!
# What actions tell

`Outcome.Tells` says of an outcome what holds of its value or fault, of the state that is left and
of the notices given on the way. It says nothing of an abort, which leaves neither. Like
`Outcome.Ends` it is computed through every way of composing actions (`tells_bind` and the lemmas
around it), and what is known of the ends of an action can be added to it (`Ends.tells`).
-/

namespace Nucleus

namespace Outcome

variable {σ α : Type}

/-- The notices that were given, if a state is left. -/
def log : Outcome σ α → List Notice
  | ok _ _ log | fault _ _ log => log
  | abort _ => []

@[simp] theorem state?_after (o : Outcome σ α) (earlier : List Notice) :
    (o.after earlier).state? = o.state? := by
  cases o <;> rfl

theorem log_after {o : Outcome σ α} {s : σ} (h : o.state? = some s) (earlier : List Notice) :
    (o.after earlier).log = earlier ++ o.log := by
  cases o with
  | ok | fault => rfl
  | abort => cases h

/-- What holds at the two ends of an action that leave a state, notices included. -/
def Tells (o : Outcome σ α) (ok : α → σ → List Notice → Prop)
    (fault : Fault → σ → List Notice → Prop) : Prop :=
  match o with
  | .ok value state log => ok value state log
  | .fault cause state log => fault cause state log
  | .abort _ => True

variable {o : Outcome σ α} {ok ok' : α → σ → List Notice → Prop}
  {fault fault' : Fault → σ → List Notice → Prop}

@[simp] theorem tells_ok {value : α} {s : σ} {log : List Notice} :
    (Outcome.ok value s log).Tells ok fault ↔ ok value s log := Iff.rfl

@[simp] theorem tells_fault {cause : Fault} {s : σ} {log : List Notice} :
    (Outcome.fault cause s log : Outcome σ α).Tells ok fault ↔ fault cause s log := Iff.rfl

@[simp] theorem tells_abort {cause : Abort} :
    (Outcome.abort cause : Outcome σ α).Tells ok fault := trivial

@[simp] theorem tells_after {earlier : List Notice} :
    (o.after earlier).Tells ok fault ↔
      o.Tells (fun a s log => ok a s (earlier ++ log)) fun c s log =>
        fault c s (earlier ++ log) := by
  cases o <;> exact Iff.rfl

theorem Tells.mono (h : o.Tells ok fault) (hok : ∀ a s log, ok a s log → ok' a s log)
    (hfault : ∀ c s log, fault c s log → fault' c s log) : o.Tells ok' fault' := by
  cases o with
  | ok value s log => exact hok _ _ _ h
  | fault cause s log => exact hfault _ _ _ h
  | abort cause => trivial

theorem Tells.and (h : o.Tells ok fault) (h' : o.Tells ok' fault') :
    o.Tells (fun a s log => ok a s log ∧ ok' a s log) fun c s log =>
      fault c s log ∧ fault' c s log := by
  cases o with
  | ok value s log => exact ⟨h, h'⟩
  | fault cause s log => exact ⟨h, h'⟩
  | abort cause => trivial

/-- What is known of the ends of an action holds besides what it tells. -/
theorem Ends.tells {okEnd : α → σ → Prop} {faultEnd : Fault → σ → Prop} {abort : Abort → Prop}
    (h : o.Ends okEnd faultEnd abort) (hlog : o.Tells ok fault) :
    o.Tells (fun a s log => okEnd a s ∧ ok a s log) fun c s log =>
      faultEnd c s ∧ fault c s log := by
  cases o with
  | ok value s log => exact ⟨h, hlog⟩
  | fault cause s log => exact ⟨h, hlog⟩
  | abort cause => trivial

/-- No notice is given. -/
def Silent (o : Outcome σ α) : Prop := o.Tells (fun _ _ log => log = []) fun _ _ log => log = []

end Outcome

namespace Action

open Outcome

variable {σ τ α β : Type} {s : σ} {ok : α → σ → List Notice → Prop}
  {ok' : β → σ → List Notice → Prop} {done : Unit → σ → List Notice → Prop}
  {fault : Fault → σ → List Notice → Prop}

@[simp] theorem tells_bind {x : Action σ α} {f : α → Action σ β} :
    ((x >>= f) s).Tells ok' fault ↔
      (x s).Tells (fun a t log => (f a t).Tells (fun b u rest => ok' b u (log ++ rest))
        fun c u rest => fault c u (log ++ rest)) fault := by
  rw [bind_apply]
  cases x s with
  | ok value t log => exact tells_after
  | fault cause t log => exact Iff.rfl
  | abort cause => exact Iff.rfl

@[simp] theorem tells_pure {value : α} :
    ((pure value : Action σ α) s).Tells ok fault ↔ ok value s [] := Iff.rfl

@[simp] theorem tells_discard {x : Action σ α} :
    ((discard x : Action σ Unit) s).Tells done fault ↔
      (x s).Tells (fun _ t log => done () t log) fault := by
  show ((Functor.mapConst PUnit.unit x) s).Tells done fault ↔ _
  rw [LawfulFunctor.map_const, Function.comp_apply, map_eq_pure_bind, tells_bind]
  simp only [tells_pure, List.append_nil, Function.const_apply]

@[simp] theorem tells_look {f : σ → α} : (look f s).Tells ok fault ↔ ok (f s) s [] := Iff.rfl

@[simp] theorem tells_change {f : σ → σ} :
    (change f s).Tells done fault ↔ done () (f s) [] := Iff.rfl

@[simp] theorem tells_note {notice : Notice} :
    (note notice s).Tells done fault ↔ done () s [notice] := Iff.rfl

/-- A notice does not matter if nothing is said of the notices. -/
theorem tells_note_bind {notice : Notice} {f : Unit → Action σ β} {done : β → σ → Prop}
    {stopped : Fault → σ → Prop}
    (h : (f () s).Tells (fun b t _ => done b t) fun c t _ => stopped c t) :
    ((note notice >>= f) s).Tells (fun b t _ => done b t) fun c t _ => stopped c t :=
  tells_bind.2 (tells_note.2 h)

theorem tells_if_note {c : Prop} [Decidable c] {notice : Notice} {f : Unit → Action σ β}
    {done : β → σ → Prop} {stopped : Fault → σ → Prop}
    (h : (f () s).Tells (fun b t _ => done b t) fun c t _ => stopped c t) :
    ((if c then note notice >>= f else f ()) s).Tells (fun b t _ => done b t)
      fun c t _ => stopped c t := by
  split
  · exact tells_note_bind h
  · exact h

@[simp] theorem tells_fail {cause : Fault} :
    ((fail cause : Action σ α) s).Tells ok fault ↔ fault cause s [] := Iff.rfl

/-- A change that may break a check tells what it tells if it does not. -/
theorem tells_attempt {f : σ → Except Abort σ} (h : ∀ t, f s = .ok t → done () t []) :
    (attempt f s).Tells done fault := by
  unfold attempt
  cases hf : f s with
  | ok t => exact h t hf
  | error cause => trivial

theorem tells_check {x : Except Abort α} (h : ∀ value, x = .ok value → ok value s []) :
    (check x s).Tells ok fault := by
  cases x with
  | ok value => exact h value rfl
  | error cause => trivial

@[simp] theorem tells_within {part : σ → τ} {replace : σ → τ → σ} {x : Action τ α} :
    (within part replace x s).Tells ok fault ↔
      (x (part s)).Tells (fun a t log => ok a (replace s t) log) fun c t log =>
        fault c (replace s t) log := by
  unfold within
  cases x (part s) <;> exact Iff.rfl

theorem silent_bind {x : Action σ α} {f : α → Action σ β} (hx : (x s).Silent)
    (hf : ∀ a t, (f a t).Silent) : ((x >>= f) s).Silent := by
  refine tells_bind.2 (hx.mono ?_ fun _ _ _ h => h)
  rintro a t log rfl
  exact hf a t

theorem silent_attempt {f : σ → Except Abort σ} : (attempt f s).Silent :=
  tells_attempt fun _ _ => rfl

theorem silent_discard {x : Action σ α} (hx : (x s).Silent) :
    ((discard x : Action σ Unit) s).Silent := tells_discard.2 hx

end Action

end Nucleus
