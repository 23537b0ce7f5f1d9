import Nucleus.Fault

/-!
# Queues

First-in first-out queues of processes: the ready queue, and the queue of waiters of each
semaphore. A process enters at the tail and leaves at the head, or from where it stands when it is
taken out. Queueing a process that is already queued is a broken check.
-/

namespace Nucleus

/-- A queue, head first. -/
structure Queue (α : Type) where
  items : List α
  deriving DecidableEq

namespace Queue

variable {α : Type} [DecidableEq α]

/-- The queue that holds nothing. -/
def empty : Queue α := ⟨[]⟩

/-- Append at the tail. -/
def enqueue (q : Queue α) (a : α) : Except Abort (Queue α) :=
  if a ∈ q.items then .error .queuedTwice else .ok ⟨q.items ++ [a]⟩

/-- The head and the queue behind it. -/
def dequeue (q : Queue α) : Option (α × Queue α) :=
  match q.items with
  | [] => none
  | a :: rest => some (a, ⟨rest⟩)

/-- The queue without the first occurrence of `a`. -/
def erase (q : Queue α) (a : α) : Queue α := ⟨q.items.erase a⟩

/-- The queue without `a`, if `a` is queued. -/
def take (q : Queue α) (a : α) : Option (Queue α) :=
  if a ∈ q.items then some (q.erase a) else none

/-- Whether `a` is queued. -/
def contains (q : Queue α) (a : α) : Bool := a ∈ q.items

/-- The head, which stays. -/
def peek (q : Queue α) : Option α := q.items.head?

/-- The number of entries. -/
def length (q : Queue α) : Nat := q.items.length

/-- Whether nothing is queued. -/
def isEmpty (q : Queue α) : Bool := q.items.isEmpty

theorem enqueue_of_not_mem {q : Queue α} {a : α} (h : a ∉ q.items) :
    q.enqueue a = .ok ⟨q.items ++ [a]⟩ := by
  simp [enqueue, h]

theorem take_eq_some_iff {q r : Queue α} {a : α} :
    q.take a = some r ↔ a ∈ q.items ∧ r.items = q.items.erase a := by
  cases r
  simp only [take, erase]
  split <;> simp_all [eq_comm]

omit [DecidableEq α] in
theorem dequeue_eq_some_iff {q r : Queue α} {a : α} :
    q.dequeue = some (a, r) ↔ q.items = a :: r.items := by
  cases r
  unfold dequeue
  split <;> simp_all

omit [DecidableEq α] in
theorem dequeue_eq_none_iff {q : Queue α} : q.dequeue = none ↔ q.items = [] := by
  unfold dequeue
  split <;> simp_all

end Queue

end Nucleus
