/-!
# Free lists

The slots of a fixed table that are not in use, in the order in which they became free. The list
holds at most as many entries as the table has slots.
-/

namespace Nucleus

/-- The free slots of a table of `n` slots, longest free first. -/
structure FreeList (n : Nat) where
  slots : List (Fin n)
  deriving DecidableEq

namespace FreeList

variable {n : Nat}

/-- Every slot free, in ascending order. -/
def full (n : Nat) : FreeList n := ⟨List.finRange n⟩

/-- Take the slot that has been free longest. -/
def pop (f : FreeList n) : Option (Fin n × FreeList n) :=
  match f.slots with
  | [] => none
  | slot :: rest => some (slot, ⟨rest⟩)

/-- Append a slot, if there is room for one more entry. -/
def push (f : FreeList n) (slot : Fin n) : Option (FreeList n) :=
  if f.slots.length < n then some ⟨f.slots ++ [slot]⟩ else none

/-- The number of entries. -/
def size (f : FreeList n) : Nat := f.slots.length

theorem pop_eq_none_iff {f : FreeList n} : f.pop = none ↔ f.slots = [] := by
  unfold pop
  split <;> simp_all

theorem pop_eq_some_iff {f g : FreeList n} {slot : Fin n} :
    f.pop = some (slot, g) ↔ f.slots = slot :: g.slots := by
  cases g
  unfold pop
  split <;> simp_all

theorem push_of_lt {f : FreeList n} {slot : Fin n} (h : f.slots.length < n) :
    f.push slot = some ⟨f.slots ++ [slot]⟩ := by
  simp [push, h]

end FreeList

end Nucleus
