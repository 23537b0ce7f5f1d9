import Nucleus.Processor.Cause
import Nucleus.Processor.Status
import Nucleus.Table

/-!
# Processor states

The registers that the processor saves when a trap is taken and loads when a process resumes,
with their layout of thirty-five words in memory. `ofWords` and `toWords` are inverse to each
other.
-/

namespace Nucleus

/-- The number of general registers in a saved state. -/
abbrev registerCount : Nat := 29

/-- The number of words of a saved state. -/
abbrev stateWords : Nat := 35

/-- A saved processor state. -/
structure ProcessorState where
  /-- Address space register. -/
  entryHi : Word
  /-- Cause register. -/
  cause : Word
  /-- Status register. -/
  status : Word
  /-- Program counter. -/
  pc : Word
  /-- General registers. -/
  gpr : Table registerCount Word
  /-- High half of a product. -/
  hi : Word
  /-- Low half of a product. -/
  lo : Word
  deriving DecidableEq

namespace ProcessorState

/-- Every register zero. -/
def zero : ProcessorState := ⟨0, 0, 0, 0, Table.fill registerCount 0, 0, 0⟩

/-- A general register. -/
abbrev Register := Fin registerCount

/-- The register of results. -/
def Register.v0 : Register := 1
/-- The register of the request number. -/
def Register.a0 : Register := 3
/-- The register of the first argument. -/
def Register.a1 : Register := 4
/-- The register of the second argument. -/
def Register.a2 : Register := 5
/-- The register of the third argument. -/
def Register.a3 : Register := 6
/-- The register that holds the address of the running procedure. -/
def Register.t9 : Register := 24
/-- The stack pointer. -/
def Register.sp : Register := 26

/-- The place of a general register in the layout. -/
def Register.place (r : Register) : Fin stateWords :=
  ⟨r + 4, Nat.lt_of_lt_of_le (Nat.add_lt_add_right r.isLt 4) (by decide)⟩

/-- The value of a general register. -/
def reg (s : ProcessorState) (r : Register) : Word := s.gpr.get r

/-- The state with a general register replaced. -/
def setReg (s : ProcessorState) (r : Register) (value : Word) : ProcessorState :=
  { s with gpr := s.gpr.set r value }

/-- The result register. -/
def v0 (s : ProcessorState) : Word := s.reg .v0
/-- The request number. -/
def a0 (s : ProcessorState) : Word := s.reg .a0
/-- The first argument. -/
def a1 (s : ProcessorState) : Word := s.reg .a1
/-- The second argument. -/
def a2 (s : ProcessorState) : Word := s.reg .a2
/-- The third argument. -/
def a3 (s : ProcessorState) : Word := s.reg .a3
/-- The stack pointer. -/
def sp (s : ProcessorState) : Word := s.reg .sp

/-- The state with a result in `v0`. -/
def withResult (s : ProcessorState) (value : Word) : ProcessorState := s.setReg .v0 value

/-- The state with a stack pointer. -/
def withStack (s : ProcessorState) (value : Word) : ProcessorState := s.setReg .sp value

/-- The state about to enter the procedure at `entry`, whose address the callee expects in `t9`. -/
def withEntry (s : ProcessorState) (entry : Word) : ProcessorState :=
  { s.setReg .t9 entry with pc := entry }

/-- Whether the trap was taken from user mode. -/
def fromUserMode (s : ProcessorState) : Bool := Status.has s.status Status.kup

/-- The exception code of the trap, if it is a known one. -/
def code? (s : ProcessorState) : Option ExceptionCode := Cause.code? s.cause

/-- The word at a place of the layout: four control registers, the general registers, then the two
halves of a product. -/
def word (s : ProcessorState) : Nat → Word
  | 0 => s.entryHi
  | 1 => s.cause
  | 2 => s.status
  | 3 => s.pc
  | n + 4 => if h : n < registerCount then s.gpr.get ⟨n, h⟩ else if n = registerCount then s.hi else s.lo

/-- The words of a state in the order of its layout in memory. -/
def toWords (s : ProcessorState) : Table stateWords Word := Table.ofFn fun i => s.word i

/-- The state with the given layout. -/
def ofWords (w : Table stateWords Word) : ProcessorState where
  entryHi := w.get 0
  cause := w.get 1
  status := w.get 2
  pc := w.get 3
  gpr := Table.ofFn fun r => w.get (Register.place r)
  hi := w.get 33
  lo := w.get 34

@[simp] theorem reg_setReg (s : ProcessorState) (r q : Register) (value : Word) :
    (s.setReg r value).reg q = if r = q then value else s.reg q := by
  simp [setReg, reg]

@[ext] theorem ext_reg {s t : ProcessorState} (entryHi : s.entryHi = t.entryHi)
    (cause : s.cause = t.cause) (status : s.status = t.status) (pc : s.pc = t.pc)
    (reg : ∀ r, s.reg r = t.reg r) (hi : s.hi = t.hi) (lo : s.lo = t.lo) : s = t := by
  have gpr : s.gpr = t.gpr := Table.ext reg
  cases s
  cases t
  simp_all

@[simp] theorem ofWords_toWords (s : ProcessorState) : ofWords s.toWords = s := by
  apply ext_reg
  case reg =>
    intro r
    simp [ofWords, toWords, reg, Register.place, word]
  case lo => simp [ofWords, toWords, word, show ¬ 30 < registerCount by decide]
  all_goals simp [ofWords, toWords, word]

theorem word_ofWords (w : Table stateWords Word) :
    ∀ i : Fin stateWords, (ofWords w).word i = w.get i
  | ⟨0, _⟩ => rfl
  | ⟨1, _⟩ => rfl
  | ⟨2, _⟩ => rfl
  | ⟨3, _⟩ => rfl
  | ⟨n + 4, h⟩ => by
    by_cases hn : n < registerCount
    · simp [ofWords, word, hn, Register.place]
    · have : n = 29 ∨ n = 30 := by
        have : ¬ n < 29 := hn
        have : n + 4 < 35 := h
        omega
      rcases this with rfl | rfl <;> rfl

@[simp] theorem toWords_ofWords (w : Table stateWords Word) : (ofWords w).toWords = w := by
  ext i
  rw [toWords, Table.get_ofFn, word_ofWords]

end ProcessorState

end Nucleus
