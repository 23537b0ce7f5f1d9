import Nucleus.Proofs.Kernel.Transition

/-!
# Ledgers

A run keeps a ledger of one semaphore: the units given and asked for, and the waiters that were
terminated. `Transition.entry` says in numbers what each call does to the value and to the number of
waiters, and what it enters, so a law of the ledger is proved by going through the kinds of entries
(`Run.induction`).
-/

namespace Nucleus

/-- What has happened to a semaphore. -/
structure Ledger where
  /-- The units given. -/
  given : Nat
  /-- Those of them that found the value at its greatest, and are lost. -/
  wasted : Nat
  /-- The units asked for. -/
  taken : Nat
  /-- The processes terminated while they waited. -/
  lost : Nat
  deriving DecidableEq

/-- Nothing has happened. -/
def Ledger.empty : Ledger := ⟨0, 0, 0, 0⟩

namespace Kernel

open Outcome

variable {k k' k₀ : Kernel} {h : Slot} {id : SemaphoreId} {call : Call} {l l' : Ledger}

/-- What a call that leads from `k` to `k'` enters in the ledger of a semaphore. -/
def enter (k : Kernel) (id : SemaphoreId) (call : Call) (k' : Kernel) (l : Ledger) : Ledger where
  given := l.given + if call.use? k = some (id, .give) then 1 else 0
  wasted := l.wasted +
    if call.use? k = some (id, .give) ∧ (k.value id).toInt = Count.greatest then 1 else 0
  taken := l.taken + if call.use? k = some (id, .take) then 1 else 0
  lost := l.lost + (k.waits.waiting id).countP (!k'.processes.isUsed ·)

/-- A run of calls and its ledger. No process has a handler that stores anything in the word of the
semaphore, and between the calls the word stays as it is. -/
inductive Run (id : SemaphoreId) (k₀ : Kernel) : Ledger → Kernel → Prop
  | start : Run id k₀ .empty k₀
  | call {l : Ledger} {k k' : Kernel} (hrun : Run id k₀ l k) (hspares : k.Spares id) (call : Call)
      (h : (call.run k).state? = some k') : Run id k₀ (k.enter id call k' l) k'
  | machine {l : Ledger} {k : Kernel} (hrun : Run id k₀ l k) (machine : Machine)
      (h : value { k with machine } id = k.value id) : Run id k₀ l { k with machine }

theorem Run.sound (hrun : Run id k₀ l k) (hk₀ : k₀.Sound) : k.Sound := by
  induction hrun with
  | start => exact hk₀
  | call hrun hspares call h ih => exact ih.step (.call call h)
  | machine hrun machine h ih => exact ih.step (.machine machine)

/-- Every run has a ledger of each semaphore that the nucleus keeps itself. -/
theorem exists_run_of_steps (hid : ∀ address, id ≠ .user address)
    (hsteps : Relation.ReflTransGen Step k₀ k) : ∃ l, Run id k₀ l k := by
  induction hsteps with
  | refl => exact ⟨_, .start⟩
  | tail _ hstep ih =>
    obtain ⟨l, hrun⟩ := ih
    cases hstep with
    | call call h => exact ⟨_, hrun.call (spares_of_soft _ hid) call h⟩
    | machine machine =>
      refine ⟨l, hrun.machine machine (value_setMachine fun address heq => ?_)⟩
      exact absurd heq (hid address)

/-! ## Entries -/

/-- What a call does to the value of a semaphore and to the number of its waiters, and what it
enters in the ledger. -/
inductive Entry (id : SemaphoreId) (k k' : Kernel) (l : Ledger) : Ledger → Prop
  /-- A unit is given. -/
  | give (hid : id ≠ .clock)
      (hvalue : (k'.value id).toInt = min Count.greatest ((k.value id).toInt + 1))
      (hwaiters : k'.waiterCount id = k.waiterCount id - 1) :
      Entry id k k' l { l with
        given := l.given + 1
        wasted := l.wasted + if (k.value id).toInt = Count.greatest then 1 else 0 }
  /-- A unit is taken. -/
  | take (hpos : 0 < (k.value id).toInt) (hvalue : (k'.value id).toInt = (k.value id).toInt - 1)
      (hwaiters : k'.waiterCount id = k.waiterCount id) :
      Entry id k k' l { l with taken := l.taken + 1 }
  /-- A process asks for a unit and waits. -/
  | block (hpos : ¬ 0 < (k.value id).toInt)
      (hvalue : (k'.value id).toInt = max Count.least ((k.value id).toInt - 1))
      (hwaiters : k'.waiterCount id = k.waiterCount id + 1) :
      Entry id k k' l { l with taken := l.taken + 1 }
  /-- The pseudo-clock ticks. -/
  | tick (hid : id = .clock)
      (hvalue : (k'.value id).toInt =
        if (k.value id).toInt < 0 then 0
        else if k.waiterCount id = 0 then max Count.least ((k.value id).toInt - 1)
        else min Count.greatest ((k.value id).toInt + 1))
      (hwaiters : k'.waiterCount id =
        k.waiterCount id - if (k.value id).toInt < 0 then (-(k.value id).toInt).toNat else 1) :
      Entry id k k' l l
  /-- Waiters are terminated. -/
  | lose (n : Nat)
      (hvalue : (k'.value id).toInt =
        min Count.greatest ((k.value id).toInt + if id.refunds then (n : Int) else 0))
      (hwaiters : k'.waiterCount id + n = k.waiterCount id) :
      Entry id k k' l { l with lost := l.lost + n }

/-- What has been entered stays. -/
theorem Entry.uses_le (hentry : Entry id k k' l l') :
    l.given + l.taken ≤ l'.given + l'.taken := by
  cases hentry with
  | give => exact Nat.add_le_add_right (Nat.le_succ _) _
  | take => exact Nat.le_succ _
  | block => exact Nat.le_succ _
  | tick => exact Nat.le_refl _
  | lose => exact Nat.le_refl _

/-- Every transition makes its entry. -/
theorem Transition.entry (ht : Transition id call k k') (hk : k.Accounted) (hk' : k'.Accounted)
    (l : Ledger) : Entry id k k' l (k.enter id call k' l) := by
  have hlost : ∀ u, call.use? k = some (id, u) →
      (k.waits.waiting id).countP (!k'.processes.isUsed ·) = 0 := fun u => ht.lost_eq_zero hk
  cases ht with
  | give huse hid hview =>
    have hentry : k.enter id call k' l = { l with
        given := l.given + 1
        wasted := l.wasted + if (k.value id).toInt = Count.greatest then 1 else 0 } := by
      simp [enter, huse, hlost .give huse]
    rw [hentry]
    refine .give hid ?_ ?_
    · exact (congrArg (·.value.toInt) hview).trans (Count.toInt_add_one _)
    · exact (congrArg (·.waiting.length) hview).trans List.length_drop
  | take huse hpos hview =>
    have hentry : k.enter id call k' l = { l with taken := l.taken + 1 } := by
      simp [enter, huse, hlost .take huse]
    rw [hentry]
    refine .take hpos ?_ (congrArg (·.waiting.length) hview)
    have hvalue : (k'.value id).toInt = max Count.least ((k.value id).toInt - 1) :=
      (congrArg (·.value.toInt) hview).trans (Count.toInt_add_neg_one _)
    rw [hvalue, Count.least]
    omega
  | block huse hpos hh hview =>
    have hentry : k.enter id call k' l = { l with taken := l.taken + 1 } := by
      simp [enter, huse, hlost .take huse]
    have hline : (k.view id).line.take 1 = [_] := congrArg (List.take 1) (line_of_current hh)
    rw [hentry]
    refine .block hpos ?_ ?_
    · exact (congrArg (·.value.toInt) hview).trans (Count.toInt_add_neg_one _)
    · refine (congrArg (·.waiting.length) hview).trans ?_
      show ((k.view id).waiting ++ (k.view id).line.take 1).length = _
      rw [hline, List.length_append]
      rfl
  | tick huse hid hview =>
    have hentry : k.enter id call k' l = l := by
      simp [enter, huse, hlost .tick huse]
    rw [hentry]
    refine .tick hid ?_ ?_
    · exact (congrArg (·.value.toInt) hview).trans (Use.toInt_tick _ _)
    · exact (congrArg (·.waiting.length) hview).trans (Use.length_tick _ _)
  | other huse hthinned =>
    have hentry : k.enter id call k' l =
        { l with lost := l.lost + (k.view id).lost (k'.view id) } := by
      simp [enter, huse, View.lost, view]
    obtain ⟨hwaiters, hvalue⟩ := hthinned.exists_lost (hk'.used_of_waiting id)
    rw [hentry]
    exact .lose _ hvalue hwaiters

/-- What every entry of a run preserves holds at its end. -/
theorem Run.induction {motive : Ledger → Kernel → Prop} (hrun : Run id k₀ l k) (hk₀ : k₀.Sound)
    (hid : id.IsOrdinary) (start : motive .empty k₀)
    (entry : ∀ l l' k k', k.Sound → k'.Sound → Entry id k k' l l' → motive l k → motive l' k')
    (machine : ∀ l k k', k'.view id = k.view id → motive l k → motive l k') : motive l k := by
  induction hrun with
  | start => exact start
  | call hrun hspares call h ih =>
    have hk := hrun.sound hk₀
    have hk' := hk.step (.call call h)
    refine entry _ _ _ _ hk hk' ?_ ih
    exact (hk.transition hid hspares h).entry hk.toAccounted hk'.toAccounted _
  | machine hrun m h ih => exact machine _ _ _ ((Alike.setMachine _ m).view h) ih

/-! ## Computed runs -/

/-- The ledger and the state after a sequence of calls, if none of them aborts and at no call a
process has a handler that stores anything in the word of the semaphore. -/
def replayRun (id : SemaphoreId) (calls : List Call) (start : Ledger × Kernel) :
    Option (Ledger × Kernel) :=
  calls.foldlM (fun (l, k) call =>
    if k.Spares id then (call.run k).state?.map fun k' => (k.enter id call k' l, k')
    else none) start

theorem Run.replay {calls : List Call} (hrun : Run id k₀ l k)
    (h : replayRun id calls (l, k) = some (l', k')) : Run id k₀ l' k' := by
  induction calls generalizing l k with
  | nil =>
    cases h
    exact hrun
  | cons call calls ih =>
    obtain ⟨⟨l₁, k₁⟩, hcall, hcalls⟩ := Option.bind_eq_some_iff.1 h
    dsimp only at hcall
    split at hcall
    · rename_i hspares
      obtain ⟨k₁, hk₁, heq⟩ := Option.map_eq_some_iff.1 hcall
      cases heq
      exact ih (hrun.call hspares call hk₁) hcalls
    · cases hcall

/-- What a start-up and a sequence of calls are computed to lead to is the end of a run. -/
theorem exists_run {p : Ledger → Kernel → Bool} (id : SemaphoreId) (calls : List Call)
    (h : ((boot (.new Machine.new .usual)).state?.bind fun k₀ =>
      replayRun id calls (.empty, k₀)).any (fun (l, k) => p l k) = true) :
    ∃ k₀ l k, (boot (.new Machine.new .usual)).state? = some k₀ ∧ Run id k₀ l k ∧
      p l k = true := by
  obtain ⟨⟨l, k⟩, hk, hp⟩ := (Option.any_eq_true _ _).1 h
  obtain ⟨k₀, hboot, hcalls⟩ := Option.bind_eq_some_iff.1 hk
  exact ⟨k₀, l, k, hboot, Run.start.replay hcalls, hp⟩

end Kernel

end Nucleus
