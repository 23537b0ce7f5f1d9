import Nucleus.Process.Descriptor
import Nucleus.Process.FreeList

/-!
# The process table

A fixed table of descriptors with a free list. A slot is handed out blank, the one that has been
free longest first. The table also links each process with its parent and its children.
-/

namespace Nucleus

/-- The process table. -/
structure ProcessTable where
  /-- The descriptors. -/
  descriptors : Table maxProcesses Descriptor
  /-- Which slots are in use. -/
  inUse : Table maxProcesses Bool
  /-- The slots that are not in use. -/
  free : FreeList maxProcesses
  deriving DecidableEq

namespace ProcessTable

/-- The table with every slot free. -/
def empty : ProcessTable where
  descriptors := Table.fill maxProcesses .blank
  inUse := Table.fill maxProcesses false
  free := .full maxProcesses

/-- The descriptor in a slot. -/
def get (t : ProcessTable) (h : Slot) : Descriptor := t.descriptors.get h

/-- The table with the descriptor in a slot changed by `f`. -/
def modify (t : ProcessTable) (h : Slot) (f : Descriptor → Descriptor) : ProcessTable :=
  { t with descriptors := t.descriptors.modify h f }

/-- Whether a slot is in use. -/
def isUsed (t : ProcessTable) (h : Slot) : Bool := t.inUse.get h

/-- Whether a number names a slot in use; a number past the table names none. -/
def isUsedNumber (t : ProcessTable) (n : Nat) : Bool :=
  if h : n < maxProcesses then t.isUsed ⟨n, h⟩ else false

/-- The slots in use, in ascending order. -/
def used (t : ProcessTable) : List Slot := (List.finRange maxProcesses).filter t.isUsed

/-- The number of slots in use. -/
def usedCount (t : ProcessTable) : Nat := t.used.length

/-- Take a slot off the free list and blank it. -/
def allocate (t : ProcessTable) : Option (Slot × ProcessTable) :=
  match t.free.pop with
  | none => none
  | some (h, free) =>
    some (h, { descriptors := t.descriptors.set h .blank, inUse := t.inUse.set h true, free })

/-- Return a slot to the free list. -/
def release (t : ProcessTable) (h : Slot) : Except Abort ProcessTable :=
  if t.isUsed h then
    match t.free.push h with
    | some free =>
      .ok { descriptors := (t.modify h ({ · with pid := 0 })).descriptors
            inUse := t.inUse.set h false
            free }
    | none => .error .processFreeListOverflow
  else .error .doubleFree

/-- The children of a process, oldest first. -/
def children (t : ProcessTable) (h : Slot) : List Slot := (t.get h).children

/-- Make `child` the youngest child of `parent`. -/
def attach (t : ProcessTable) (parent child : Slot) : ProcessTable :=
  (t.modify parent fun d => { d with children := d.children ++ [child] }).modify child
    ({ · with parent := some parent })

/-- Take the oldest child away from `parent`. -/
def detachOldest (t : ProcessTable) (parent : Slot) : Option (Slot × ProcessTable) :=
  match t.children parent with
  | [] => none
  | child :: rest =>
    some (child, (t.modify parent ({ · with children := rest })).modify child
      ({ · with parent := none }))

/-- Take `child` away from its parent, if it has one. -/
def detach? (t : ProcessTable) (child : Slot) : Option ProcessTable :=
  (t.get child).parent.map fun parent =>
    (t.modify child ({ · with parent := none })).modify parent fun d =>
      { d with children := d.children.filter (· ≠ child) }

/-- The table with `child` taken away from its parent; without a parent nothing changes. -/
def detach (t : ProcessTable) (child : Slot) : ProcessTable := (t.detach? child).getD t

/-- The descendants of a process and the process itself, `depth` generations deep. Every process
comes after its own descendants, and those of an older child come before those of a younger. -/
def family (t : ProcessTable) : Nat → Slot → List Slot
  | 0, _ => []
  | depth + 1, h => (t.children h).flatMap (t.family depth) ++ [h]

@[simp] theorem get_modify (t : ProcessTable) (h i : Slot) (f : Descriptor → Descriptor) :
    (t.modify h f).get i = if h = i then f (t.get h) else t.get i := by
  simp [modify, get]

@[simp] theorem isUsed_modify (t : ProcessTable) (h i : Slot) (f : Descriptor → Descriptor) :
    (t.modify h f).isUsed i = t.isUsed i := rfl

@[simp] theorem free_modify (t : ProcessTable) (h : Slot) (f : Descriptor → Descriptor) :
    (t.modify h f).free = t.free := rfl

end ProcessTable

end Nucleus
