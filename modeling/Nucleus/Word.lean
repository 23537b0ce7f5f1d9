/-!
# Machine words

The nucleus computes on 32-bit words. Where the machine wraps, the operators of `UInt32` serve as
they are. This module adds the operations that stop at a bound instead, the signed counts that
semaphores hold, and the hexadecimal text of a word.
-/

namespace Nucleus

/-- A machine word; addresses and clock readings are words too. -/
abbrev Word := UInt32

/-- The number of bytes of a word. -/
def wordSize : Word := 4

namespace Word

/-- The word with every bit set: what a caller reads as `-1`. -/
def allOnes : Word := 0xffffffff

/-- Addition that stops at the largest word. -/
def saturatingAdd (a b : Word) : Word :=
  if a.toNat + b.toNat < UInt32.size then a + b else allOnes

/-- Subtraction that stops at zero. -/
def saturatingSub (a b : Word) : Word :=
  if b ≤ a then a - b else 0

/-- Multiplication that stops at the largest word. -/
def saturatingMul (a b : Word) : Word :=
  if a.toNat * b.toNat < UInt32.size then a * b else allOnes

theorem toNat_saturatingAdd (a b : Word) :
    (saturatingAdd a b).toNat = min (a.toNat + b.toNat) (UInt32.size - 1) := by
  unfold saturatingAdd
  split
  · rename_i h
    rw [UInt32.toNat_add, Nat.mod_eq_of_lt h]
    omega
  · rename_i h
    have : allOnes.toNat = UInt32.size - 1 := rfl
    omega

theorem toNat_saturatingSub (a b : Word) :
    (saturatingSub a b).toNat = a.toNat - b.toNat := by
  unfold saturatingSub
  split
  · rename_i h
    exact UInt32.toNat_sub_of_le a b h
  · rename_i h
    have : ¬ b.toNat ≤ a.toNat := fun hle => h (UInt32.le_iff_toNat_le.2 hle)
    have : (0 : Word).toNat = 0 := rfl
    omega

theorem toNat_saturatingMul (a b : Word) :
    (saturatingMul a b).toNat = min (a.toNat * b.toNat) (UInt32.size - 1) := by
  unfold saturatingMul
  split
  · rename_i h
    rw [UInt32.toNat_mul, Nat.mod_eq_of_lt h]
    omega
  · rename_i h
    have : allOnes.toNat = UInt32.size - 1 := rfl
    omega

/-- The lower-case hexadecimal digits of a word, with no leading zero. -/
def hexDigits (w : Word) : List Char := Nat.toDigits 16 w.toNat

/-- A word as `0x` and its hexadecimal digits. -/
def hex (w : Word) : String := "0x" ++ String.ofList (hexDigits w)

/-- A word as `0x` and exactly eight hexadecimal digits. -/
def hex8 (w : Word) : String :=
  let digits := hexDigits w
  "0x" ++ String.ofList (List.replicate (8 - digits.length) '0' ++ digits)

end Word

/-- The value of a semaphore: a signed word. -/
abbrev Count := Int32

namespace Count

/-- The least value. -/
def least : Int := -0x80000000

/-- The greatest value. -/
def greatest : Int := 0x7fffffff

/-- Addition that stops at the least and the greatest value. -/
def saturatingAdd (a b : Count) : Count :=
  Int32.ofInt (max least (min greatest (a.toInt + b.toInt)))

theorem toInt_saturatingAdd (a b : Count) :
    (saturatingAdd a b).toInt = max least (min greatest (a.toInt + b.toInt)) := by
  unfold saturatingAdd least greatest
  exact Int32.toInt_ofInt_of_le (by omega) (by omega)

end Count

end Nucleus
