import Nucleus.Process.Descriptor

/-!
# The pid index

A bounded index from the pids of live processes to their slots. A new pid takes the first
free entry; a pid is found at its first entry.
-/

namespace Nucleus

/-- Entries that pair a pid with a value. -/
structure PidIndex (α : Type) where
  entries : List (Option (Pid × α))
  /-- There are as many entries as there can be processes. -/
  bounded : entries.length = maxProcesses

namespace PidIndex

variable {α : Type}

/-- The index without pids. -/
def empty : PidIndex α := ⟨List.replicate maxProcesses none, List.length_replicate⟩

/-- Put a pid into the first free entry of a list, if one is free. -/
def place (pid : Pid) (value : α) : List (Option (Pid × α)) → Option (List (Option (Pid × α)))
  | [] => none
  | none :: rest => some (some (pid, value) :: rest)
  | some entry :: rest => (place pid value rest).map (some entry :: ·)

/-- Free the first entry of a list that holds a pid. -/
def clear (pid : Pid) : List (Option (Pid × α)) → List (Option (Pid × α))
  | [] => []
  | none :: rest => none :: clear pid rest
  | some entry :: rest => if entry.1 = pid then none :: rest else some entry :: clear pid rest

theorem length_place {pid : Pid} {value : α} {es fs : List (Option (Pid × α))}
    (h : place pid value es = some fs) : fs.length = es.length := by
  induction es generalizing fs with
  | nil => simp [place] at h
  | cons e es ih =>
    cases e with
    | none => simp only [place, Option.some.injEq] at h; simp [← h]
    | some entry =>
      simp only [place, Option.map_eq_some_iff] at h
      obtain ⟨gs, hgs, rfl⟩ := h
      simp [ih hgs]

theorem length_clear (pid : Pid) (es : List (Option (Pid × α))) :
    (clear pid es).length = es.length := by
  induction es with
  | nil => rfl
  | cons e es ih =>
    cases e with
    | none => simp [clear, ih]
    | some entry => simp only [clear]; split <;> simp [ih]

/-- The pids in the index with their values, in the order of the entries. -/
def toList (t : PidIndex α) : List (Pid × α) := t.entries.filterMap id

/-- Record a pid, if an entry is free. -/
def insert (t : PidIndex α) (pid : Pid) (value : α) : Option (PidIndex α) :=
  match h : place pid value t.entries with
  | none => none
  | some entries => some ⟨entries, (length_place h).trans t.bounded⟩

/-- The value recorded for a pid. -/
def lookup (t : PidIndex α) (pid : Pid) : Option α := t.toList.lookup pid

/-- Forget a pid. -/
def remove (t : PidIndex α) (pid : Pid) : PidIndex α :=
  ⟨clear pid t.entries, (length_clear pid t.entries).trans t.bounded⟩

/-- The number of entries in use. -/
def length (t : PidIndex α) : Nat := t.toList.length

/-- Whether no pid is recorded. -/
def isEmpty (t : PidIndex α) : Bool := t.toList.isEmpty

end PidIndex

end Nucleus
