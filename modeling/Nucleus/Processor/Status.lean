import Nucleus.Text.Blank
import Nucleus.Word

/-!
# The status register

Named bits of the status register and its written form: the names of the flags that are set,
joined by ` | `, then whatever bits are left over as one hexadecimal number.
-/

namespace Nucleus.Status

/-- Interrupts enabled, current. -/
def iec : Word := 0x1
/-- User mode, current. -/
def kuc : Word := 0x2
/-- Interrupts enabled, previous. -/
def iep : Word := 0x4
/-- User mode, previous. -/
def kup : Word := 0x8
/-- Interrupts enabled, old. -/
def ieo : Word := 0x10
/-- User mode, old. -/
def kuo : Word := 0x20
/-- Every interrupt line unmasked. -/
def unmasked : Word := 0xff00
/-- Virtual memory on, current. -/
def vmc : Word := 0x1000000
/-- Virtual memory on, previous. -/
def vmp : Word := 0x2000000
/-- Virtual memory on, old. -/
def vmo : Word := 0x4000000

/-- Whether every bit of `flag` is set. -/
def has (bits flag : Word) : Bool := bits &&& flag = flag

/-- The register with the bits of `flag` set or cleared. -/
def assign (bits flag : Word) (on : Bool) : Word :=
  if on then bits ||| flag else bits &&& ~~~flag

/-- The flags and their names, in the order in which they are written. -/
def flags : List (String × Word) :=
  [("IEC", iec), ("KUC", kuc), ("IEP", iep), ("KUP", kup), ("IEO", ieo), ("KUO", kuo),
   ("INT_UNMASKED", unmasked), ("VMC", vmc), ("VMP", vmp), ("VMO", vmo)]

/-- The flags that are wholly set. -/
def setFlags (bits : Word) : List (String × Word) := flags.filter fun flag => has bits flag.2

/-- The names of the flags that are wholly set. -/
def names (bits : Word) : List String := (setFlags bits).map (·.1)

/-- The bits that belong to no flag that is wholly set. -/
def unnamed (bits : Word) : Word :=
  (setFlags bits).foldl (fun left flag => left &&& ~~~flag.2) bits

/-- The written form of the register. -/
def text (bits : Word) : String :=
  " | ".intercalate (names bits ++ if unnamed bits = 0 then [] else [Word.hex (unnamed bits)])

/-- The written form with its type; an empty register is spelled out as zero. -/
def describe (bits : Word) : String :=
  "Status(" ++ (if bits = 0 then "0x0" else text bits) ++ ")"

/-- The value of a hexadecimal digit of either case. -/
def digit? (c : Char) : Option Nat :=
  if '0' ≤ c ∧ c ≤ '9' then some (c.toNat - '0'.toNat)
  else if 'a' ≤ c ∧ c ≤ 'f' then some (c.toNat - 'a'.toNat + 10)
  else if 'A' ≤ c ∧ c ≤ 'F' then some (c.toNat - 'A'.toNat + 10)
  else none

/-- The number that a text of hexadecimal digits writes, if it fits a word. -/
def number? (digits : List Char) : Option Word := do
  let values ← digits.mapM digit?
  let value := values.foldl (fun n d => 16 * n + d) 0
  if digits ≠ [] ∧ value < UInt32.size then some (UInt32.ofNat value) else none

/-- The bits that one part of a written form stands for: a number after `0x`, which may carry a
plus sign, or the name of a flag. -/
def part? : List Char → Option Word
  | '0' :: 'x' :: '+' :: digits => number? digits
  | '0' :: 'x' :: digits => number? digits
  | name => (flags.find? fun flag => flag.1.toList = name).map (·.2)

/-- Read a written form. Blank text is zero; otherwise every part between bars counts, without
the blanks around it. -/
def ofText? (s : String) : Option Word :=
  let cs := s.toList
  if Text.trim cs = [] then some 0
  else (Text.pieces '|' cs).foldlM (fun bits piece => return bits ||| (← part? (Text.trim piece))) 0

end Nucleus.Status
