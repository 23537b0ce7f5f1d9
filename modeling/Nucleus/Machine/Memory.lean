import Nucleus.Word
import Std.Data.ExtTreeMap

/-!
# Memory

A word at every address, zero until written. Only the words other than zero are kept, so two
memories that read the same everywhere are equal (`Memory.ext`).
-/

namespace Nucleus

/-- The contents of memory: the words other than zero, by address. -/
structure Memory where
  /-- The words that are kept. -/
  words : Std.ExtTreeMap Word Word
  /-- No word that is kept is zero. -/
  nonzero : ∀ a : Word, words[a]? ≠ some 0

namespace Memory

/-- Memory in which every word is zero. -/
def zero : Memory := ⟨∅, by simp⟩

/-- The word at an address. -/
def read (m : Memory) (a : Word) : Word := m.words[a]?.getD 0

/-- Memory with the word at an address replaced. -/
def write (m : Memory) (a v : Word) : Memory :=
  if h : v = 0 then
    { words := m.words.erase a
      nonzero := fun b => by
        rw [Std.ExtTreeMap.getElem?_erase]
        split
        · simp
        · exact m.nonzero b }
  else
    { words := m.words.insert a v
      nonzero := fun b => by
        rw [Std.ExtTreeMap.getElem?_insert]
        split
        · simpa using h
        · exact m.nonzero b }

@[simp] theorem read_zero (a : Word) : zero.read a = 0 := by
  simp [zero, read]

theorem read_write (m : Memory) (a v b : Word) :
    (m.write a v).read b = if a = b then v else m.read b := by
  unfold write read
  split
  · rename_i h
    simp only [Std.ExtTreeMap.getElem?_erase, Std.LawfulEqCmp.compare_eq_iff_eq]
    split
    · simp [h]
    · rfl
  · simp only [Std.ExtTreeMap.getElem?_insert, Std.LawfulEqCmp.compare_eq_iff_eq]
    split <;> rfl

@[ext] theorem ext {m n : Memory} (h : ∀ a, m.read a = n.read a) : m = n := by
  obtain ⟨v, hv⟩ := m
  obtain ⟨w, hw⟩ := n
  have : v = w := by
    apply Std.ExtTreeMap.ext_getElem?
    intro a
    have hread := h a
    have := hv a
    have := hw a
    simp only [read] at hread
    cases hva : v[a]? <;> cases hwa : w[a]? <;> simp_all
  subst this
  rfl

@[simp] theorem write_read (m : Memory) (a : Word) : m.write a (m.read a) = m := by
  ext b
  rw [read_write]
  split <;> simp_all

@[simp] theorem write_write (m : Memory) (a v w : Word) :
    (m.write a v).write a w = m.write a w := by
  ext b
  simp only [read_write]
  split <;> rfl

theorem write_comm (m : Memory) {a b : Word} (v w : Word) (h : a ≠ b) :
    (m.write a v).write b w = (m.write b w).write a v := by
  ext c
  simp only [read_write]
  grind

end Memory

end Nucleus
