import Nucleus.Proofs.Kernel.Frame

/-!
# A semaphore's view of the nucleus

Of all that the nucleus keeps, one semaphore has to do with its value, its waiters and who can run
(`View`). A call changes the view of a semaphore in one of three ways, a `Use`, or it takes away
processes that waited there (`View.Thinned`). This module says what the moves of the nucleus do to
the views of all semaphores; deciding what runs next changes none (`schedule_view`).
-/

namespace Nucleus

namespace Count

theorem toInt_add_one (value : Count) :
    (saturatingAdd value 1).toInt = min greatest (value.toInt + 1) := by
  have hlow := value.le_toInt
  have hone : (1 : Count).toInt = 1 := rfl
  rw [toInt_saturatingAdd, hone, least, greatest]
  omega

theorem toInt_add_neg_one (value : Count) :
    (saturatingAdd value (-1)).toInt = max least (value.toInt - 1) := by
  have hhigh := value.toInt_lt
  have hone : (-1 : Count).toInt = -1 := rfl
  rw [toInt_saturatingAdd, hone, least, greatest]
  omega

end Count

/-- What one semaphore sees of the nucleus. -/
structure View where
  /-- Its value. -/
  value : Count
  /-- The processes that wait on it, oldest first. -/
  waiting : List Slot
  /-- The processes that can run, in the order in which they get the processor: the running one,
  then the ready ones. -/
  line : List Slot
  /-- Whether a process is alive. -/
  isUsed : Slot → Bool
  /-- The number of processes whose wait ends by itself. -/
  softCount : Nat

namespace View

variable {v w : View} {soft refunds : Bool}

/-- The value changes by `delta`. -/
def add (v : View) (delta : Count) : View :=
  { v with value := Count.saturatingAdd v.value delta }

/-- The first `n` waiters join the line at its end. -/
def release (v : View) (soft : Bool) (n : Nat) : View :=
  { v with
    waiting := v.waiting.drop n
    line := v.line ++ v.waiting.take n
    softCount := v.softCount - if soft then min n v.waiting.length else 0 }

/-- The process at the head of the line waits. -/
def block (v : View) (soft : Bool) : View :=
  { v with
    waiting := v.waiting ++ v.line.take 1
    line := v.line.drop 1
    softCount := v.softCount + soft.toNat }

theorem release_zero (v : View) (soft : Bool) : v.release soft 0 = v := by
  simp [release]

theorem release_of_empty (hv : v.waiting = []) (soft : Bool) (n : Nat) : v.release soft n = v := by
  obtain ⟨value, waiting, line, isUsed, softCount⟩ := v
  subst hv
  simp [release]

/-- Waiters can be released one after the other. -/
theorem release_release (v : View) (soft : Bool) (m n : Nat) :
    (v.release soft m).release soft n = v.release soft (m + n) := by
  have hsoft : (v.softCount - if soft then min m v.waiting.length else 0) -
      (if soft then min n (v.waiting.length - m) else 0) =
      v.softCount - if soft then min (m + n) v.waiting.length else 0 := by
    split
    · omega
    · rfl
  simp only [release, List.drop_drop, List.append_assoc, ← List.take_add, List.length_drop, hsoft]

/-- Some of the waiters are gone for good; if the semaphore refunds, each has given back its
unit. -/
def Thinned (refunds : Bool) (v w : View) : Prop :=
  ∃ gone : List Slot, (∀ h ∈ gone, w.isUsed h = false) ∧
    w.waiting = v.waiting.filter (!gone.contains ·) ∧
    w.value.toInt = min Count.greatest
      (v.value.toInt + if refunds then (v.waiting.countP (gone.contains ·) : Int) else 0)

/-- A semaphore of which nothing changes has lost no waiter. -/
theorem Thinned.of_eq (hvalue : w.value = v.value) (hwaiting : w.waiting = v.waiting) :
    v.Thinned refunds w := by
  have hle : v.value.toInt ≤ Count.greatest := v.value.toInt_le
  refine ⟨[], fun _ hmem => absurd hmem List.not_mem_nil, ?_, ?_⟩
  · simp [hwaiting]
  · have hcount : v.waiting.countP (([] : List Slot).contains ·) = 0 := by simp
    rw [hvalue, hcount]
    split <;> omega

end View

/-- What a call can do with a semaphore. -/
inductive Use where
  /-- Give a unit and release the oldest waiter. -/
  | give
  /-- Take a unit; without one the running process blocks. -/
  | take
  /-- Release all waiters, or leave the tick pending. -/
  | tick
  deriving DecidableEq

/-- What a use does to the view of its semaphore. -/
def Use.act (soft : Bool) (v : View) : Use → View
  | give => (v.add 1).release soft 1
  | take => if 0 < v.value.toInt then v.add (-1) else (v.add (-1)).block soft
  | tick =>
    if v.value.toInt < 0 then { v with value := 0 }.release soft (-v.value.toInt).toNat
    else (v.add (if v.waiting = [] then -1 else 1)).release soft 1

namespace SemaphoreId

/-- Whether a wait on the semaphore ends by itself. -/
def isSoft (id : SemaphoreId) : Bool := id.waitKind.isSoft

/-- Whether a process that is terminated while it waits gives back the unit that it asked for. -/
def refunds : SemaphoreId → Bool
  | device _ => false
  | clock | user _ => true

end SemaphoreId

namespace Kernel

open Outcome

variable {k k' k'' : Kernel} {h : Slot} {id : SemaphoreId} {p q : Place}

/-- The processes that can run, in the order in which they get the processor. -/
def line (k : Kernel) : List Slot := k.current.toList ++ k.ready.items

/-- The processor is given to the first process that can run. -/
def Dispatched (k : Kernel) : Prop := k.current = k.line.head?

/-- What a semaphore sees of the nucleus. -/
def view (k : Kernel) (id : SemaphoreId) : View where
  value := k.value id
  waiting := k.waits.waiting id
  line := k.line
  isUsed := k.processes.isUsed
  softCount := k.softCount.toNat

theorem line_of_current (hh : k.current = some h) : k.line = h :: k.ready.items := by
  simp [line, hh]

theorem dispatched_of_current (hh : k.current = some h) : k.Dispatched := by
  rw [Dispatched, line_of_current hh, hh]
  rfl

/-! ## Kernels that look the same -/

/-- The view of a semaphore depends on the books and on its value. -/
theorem SameBooks.view (hk : k.SameBooks k') (hvalue : k'.value id = k.value id) :
    k'.view id = k.view id := by
  have hused : k'.processes.isUsed = k.processes.isUsed := funext hk.isUsed
  simp only [Kernel.view, line, hvalue, hk.waits, hk.current, hk.ready, hused, hk.softCount]

theorem view_setTimer (hid : id.IsOrdinary) (k : Kernel) (micros : Word) :
    (k.setTimer micros).view id = k.view id :=
  (Alike.setTimer k micros).view (value_setTimer hid micros)

theorem view_gatherTick (id : SemaphoreId) (k : Kernel) : k.gatherTick.view id = k.view id :=
  (Alike.gatherTick k).view rfl

theorem view_charge (id : SemaphoreId) (k : Kernel) : k.charge.view id = k.view id :=
  (Alike.charge k).view (value_charge id)

theorem view_modify {f : Descriptor → Descriptor} (hf : ∀ d : Descriptor, d.SameEntry (f d))
    (k : Kernel) (h : Slot) (id : SemaphoreId) : (k.modify h f).view id = k.view id :=
  SameBooks.view (.modify hf) rfl

/-- Only the semaphore to which something is added sees it. -/
theorem view_add (hid : id.IsOrdinary) (k : Kernel) (other : SemaphoreId) (delta : Count) :
    (k.add other delta).view id = if other = id then (k.view id).add delta else k.view id := by
  have hvalue := value_add hid.offRegisters k other delta
  split at hvalue
  · rename_i heq
    rw [if_pos heq]
    simp only [view, View.add, hvalue]
    rfl
  · rename_i hne
    rw [if_neg hne]
    exact (Alike.add k other delta).view hvalue

/-! ## Moves -/

/-- Neither the value nor the queue of a semaphore has changed. -/
structure Untouched (id : SemaphoreId) (k k' : Kernel) : Prop where
  value : k'.value id = k.value id
  waiting : k'.waits.waiting id = k.waits.waiting id

namespace Untouched

theorem refl (id : SemaphoreId) (k : Kernel) : k.Untouched id k := ⟨rfl, rfl⟩

theorem trans (hk : k.Untouched id k') (hk' : k'.Untouched id k'') : k.Untouched id k'' :=
  ⟨hk'.value.trans hk.value, hk'.waiting.trans hk.waiting⟩

theorem of_view (hk : k'.view id = k.view id) : k.Untouched id k' :=
  ⟨congrArg View.value hk, congrArg View.waiting hk⟩

theorem add (hid : id.IsOrdinary) {other : SemaphoreId} (hne : other ≠ id) (k : Kernel)
    (delta : Count) : k.Untouched id (k.add other delta) :=
  of_view (by rw [view_add hid, if_neg hne])

end Untouched

namespace Moved

theorem untouched (hm : k.Moved h p q k') (hw : k.SameWorld k') (hp : p ≠ .waitList id)
    (hq : q ≠ .waitList id) : k.Untouched id k' :=
  ⟨hw.value id, hm.others (.waitList id) hp.symm hq.symm⟩

/-- The running process has blocked on the semaphore. -/
theorem view_of_blocked (hm : k.Moved h .processor (.waitList id) k') (hw : k.SameWorld k')
    (hh : k.current = some h) : k'.view id = (k.view id).block id.isSoft := by
  have hprocessor : k'.current.toList = k.current.toList.erase h := hm.leaves
  have hready : k'.ready.items = k.ready.items := hm.others .ready nofun nofun
  have hwaiting : k'.waits.waiting id = k.waits.waiting id ++ [h] := hm.joins
  have hused : k'.processes.isUsed = k.processes.isUsed := funext hm.isUsed
  have hsoft : k'.softCount.toNat = k.softCount.toNat + id.isSoft.toNat := hm.soft
  simp [view, View.block, line, hw.value, hprocessor, hready, hwaiting, hused, hsoft, hh]

/-- The oldest waiter of the semaphore has been released. -/
theorem view_of_released {rest : List Slot} (hm : k.Moved h (.waitList id) .ready k')
    (hw : k.SameWorld k') (hq : k.waits.waiting id = h :: rest) :
    k'.view id = (k.view id).release id.isSoft 1 := by
  have hprocessor : k'.current.toList = k.current.toList := hm.others .processor nofun nofun
  have hready : k'.ready.items = k.ready.items ++ [h] := hm.joins
  have hwaiting : k'.waits.waiting id = (k.waits.waiting id).erase h := hm.leaves
  have hused : k'.processes.isUsed = k.processes.isUsed := funext hm.isUsed
  have hsoft : k'.softCount.toNat + id.isSoft.toNat = k.softCount.toNat := hm.soft
  have hcount : k'.softCount.toNat = k.softCount.toNat - if id.isSoft then 1 else 0 := by
    cases hs : id.isSoft <;> rw [hs] at hsoft <;> simp at hsoft ⊢ <;> omega
  simp [view, View.release, line, hw.value, hprocessor, hready, hwaiting, hused, hcount, hq]

end Moved

theorem Accounted.at_oldest {rest : List Slot} (hk : k.Accounted)
    (hq : k.waits.waiting id = h :: rest) : k.At h (.waitList id) := by
  have hmem : h ∈ k.waits.waiting id := hq ▸ List.mem_cons_self
  exact hk.at_of_mem hmem

/-- The oldest waiter of a semaphore is released, if there is one. -/
theorem wakeNext_view (hk : k.Accounted) (id : SemaphoreId) :
    (wakeNext id k).Finishes fun a k' => a = (k.waits.waiting id).head? ∧ k'.Accounted ∧
      k.SameWorld k' ∧ k'.view id = (k.view id).release id.isSoft 1 := by
  cases hq : k.waits.waiting id with
  | nil =>
    rw [wakeNext_of_empty hq]
    exact ⟨rfl, hk, .refl k, (View.release_of_empty hq _ _).symm⟩
  | cons h rest =>
    refine ((wakeNext_finishes hk hq).and_always (wakeNext_sameWorld id k)).mono ?_
    rintro _ k' ⟨⟨rfl, hm⟩, hw⟩
    exact ⟨rfl, hk.moved (hk.at_oldest hq) Place.noConfusion hm, hw, hm.view_of_released hw hq⟩

/-- Releasing a waiter of one semaphore leaves the others alone. -/
theorem wakeNext_untouched (hk : k.Accounted) {other : SemaphoreId} (hne : other ≠ id) :
    (wakeNext other k).Finishes fun _ k' => k'.Accounted ∧ k.Untouched id k' := by
  cases hq : k.waits.waiting other with
  | nil =>
    rw [wakeNext_of_empty hq]
    exact ⟨hk, .refl id k⟩
  | cons h rest =>
    refine ((wakeNext_finishes hk hq).and_always (wakeNext_sameWorld other k)).mono ?_
    rintro _ k' ⟨⟨-, hm⟩, hw⟩
    refine ⟨hk.moved (hk.at_oldest hq) Place.noConfusion hm, hm.untouched hw ?_ nofun⟩
    exact fun heq => hne (Place.waitList.inj heq)

/-! ## Deciding what runs next -/

/-- The head of the ready queue gets the processor; it stays the first in the line. -/
theorem dispatchNext_view (hid : id.IsOrdinary) {rest : Queue Slot} (hcurrent : k.current = none)
    (hready : k.ready.items = h :: rest.items) :
    (k.dispatchNext h rest).Finishes fun _ k' => k'.view id = k.view id ∧ k'.Dispatched := by
  set k₁ : Kernel := { k with ready := rest, current := some h, chargedUntil := k.machine.now }
  have htake : k₁.view id = k.view id := by simp [k₁, view, value, line, hcurrent, hready]
  have hquantum : (k₁.gatherTick.modify h ({ · with quantumTime := 0 })).view id = k₁.view id :=
    (view_modify (fun _ => ⟨rfl, rfl, rfl, rfl, rfl⟩) _ h id).trans (view_gatherTick id k₁)
  exact ⟨(view_setTimer hid _ _).trans (hquantum.trans htake), dispatched_of_current rfl⟩

/-- Deciding what runs next changes the view of no semaphore, and the processor is given to the
first in the line. -/
theorem schedule_view (hid : id.IsOrdinary) (k : Kernel) :
    (schedule k).Ends (fun _ k' => k'.view id = k.view id ∧ k'.Dispatched)
      (fun c k' => (k'.view id = k.view id ∧ k'.Dispatched) ∧ c = .deadlock) (fun _ => False) := by
  have hidle : k.current = none → k.ready.items = [] → k.Dispatched := fun hcurrent hready => by
    simp [Dispatched, line, hcurrent, hready]
  have hchoice := k.choice_schedule
  generalize schedule k = o at hchoice ⊢
  cases hchoice with
  | resume hh =>
    refine ⟨?_, dispatched_of_current ((Alike.charge k).current.trans hh)⟩
    rw [view_setTimer hid, view_gatherTick, view_charge]
  | dispatch hcurrent hready =>
    exact (dispatchNext_view hid hcurrent hready).ends fun _ _ h => h
  | halt hcurrent hready => exact ⟨rfl, hidle hcurrent hready⟩
  | deadlock hcurrent hready => exact ⟨⟨rfl, hidle hcurrent hready⟩, rfl⟩
  | wait hcurrent hready =>
    refine ⟨?_, hidle hcurrent hready⟩
    rw [view_setTimer hid, view_gatherTick]

end Kernel

end Nucleus
