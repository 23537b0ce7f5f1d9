/-!
# Tables

A table has an entry for each index below its size. An entry is read with `get`, and `get_set` says
how the entries look after one of them is replaced. Tables that read the same are equal
(`Table.ext`).
-/

namespace Nucleus

/-- A table with `n` entries. -/
structure Table (n : Nat) (α : Type) where
  entries : Vector α n
  deriving DecidableEq

namespace Table

variable {n : Nat} {α : Type}

/-- The table in which every entry is `a`. -/
def fill (n : Nat) (a : α) : Table n α := ⟨Vector.replicate n a⟩

/-- The table whose entry at `i` is `f i`. -/
def ofFn (f : Fin n → α) : Table n α := ⟨Vector.ofFn f⟩

/-- The table with the given entries, if there are `n` of them. -/
def ofList? (n : Nat) (as : List α) : Option (Table n α) :=
  if h : as.length = n then some ⟨as.toArray, by simpa using h⟩ else none

/-- The entry at an index. -/
def get (t : Table n α) (i : Fin n) : α := t.entries[i]

/-- The table with the entry at an index replaced. -/
def set (t : Table n α) (i : Fin n) (a : α) : Table n α := ⟨t.entries.set i a i.isLt⟩

/-- The table with the entry at an index changed by `f`. -/
def modify (t : Table n α) (i : Fin n) (f : α → α) : Table n α := t.set i (f (t.get i))

/-- The entries in order. -/
def toList (t : Table n α) : List α := t.entries.toList

@[simp] theorem get_fill (a : α) (i : Fin n) : (fill n a).get i = a := by
  simp [fill, get]

@[simp] theorem get_ofFn (f : Fin n → α) (i : Fin n) : (ofFn f).get i = f i := by
  simp [ofFn, get]

@[simp] theorem get_set (t : Table n α) (i j : Fin n) (a : α) :
    (t.set i a).get j = if i = j then a else t.get j := by
  simp [set, get, Vector.getElem_set, Fin.ext_iff]

theorem get_set_self (t : Table n α) (i : Fin n) (a : α) : (t.set i a).get i = a := by
  simp

theorem get_set_of_ne (t : Table n α) {i j : Fin n} (a : α) (h : i ≠ j) :
    (t.set i a).get j = t.get j := by
  simp [h]

@[simp] theorem get_modify (t : Table n α) (i j : Fin n) (f : α → α) :
    (t.modify i f).get j = if i = j then f (t.get i) else t.get j := by
  simp [modify]

@[ext] theorem ext {t u : Table n α} (h : ∀ i, t.get i = u.get i) : t = u := by
  cases t
  cases u
  congr
  exact Vector.ext fun i hi => h ⟨i, hi⟩

@[simp] theorem set_get (t : Table n α) (i : Fin n) : t.set i (t.get i) = t := by
  ext j
  rw [get_set]
  split <;> simp_all

end Table

end Nucleus
