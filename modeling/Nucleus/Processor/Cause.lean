import Nucleus.Fault

/-!
# The cause register

The cause register says why a trap was taken: bits 2 to 6 hold the exception code, and bit
`8 + n` is set while interrupt line `n` is pending.
-/

namespace Nucleus

/-- The exception codes of the processor, in the order of their numbers. -/
inductive ExceptionCode where
  | interrupt
  | tlbMod
  | tlbInvalidLoad
  | tlbInvalidStore
  | addressLoad
  | addressStore
  | busFetch
  | busLoadStore
  | syscall
  | breakpoint
  | reservedInstruction
  | coprocessorUnusable
  | arithmeticOverflow
  | badPte
  | pteMiss
  deriving DecidableEq

namespace ExceptionCode

/-- The codes and their names, by number. -/
def all : List (ExceptionCode × String) :=
  [(interrupt, "Interrupt"), (tlbMod, "TlbMod"), (tlbInvalidLoad, "TlbInvalidLoad"),
   (tlbInvalidStore, "TlbInvalidStore"), (addressLoad, "AddressLoad"),
   (addressStore, "AddressStore"), (busFetch, "BusFetch"), (busLoadStore, "BusLoadStore"),
   (syscall, "Syscall"), (breakpoint, "Breakpoint"),
   (reservedInstruction, "ReservedInstruction"), (coprocessorUnusable, "CoprocessorUnusable"),
   (arithmeticOverflow, "ArithmeticOverflow"), (badPte, "BadPte"), (pteMiss, "PteMiss")]

/-- The number of a code. -/
def number : ExceptionCode → Word
  | interrupt => 0
  | tlbMod => 1
  | tlbInvalidLoad => 2
  | tlbInvalidStore => 3
  | addressLoad => 4
  | addressStore => 5
  | busFetch => 6
  | busLoadStore => 7
  | syscall => 8
  | breakpoint => 9
  | reservedInstruction => 10
  | coprocessorUnusable => 11
  | arithmeticOverflow => 12
  | badPte => 13
  | pteMiss => 14

/-- The code with a given number. -/
def ofNumber? (n : Word) : Option ExceptionCode := (all[n.toNat]?).map (·.1)

/-- The name of a code. -/
def name (code : ExceptionCode) : String :=
  ((all.find? fun entry => entry.1 = code).map (·.2)).getD ""

theorem ofNumber?_number (code : ExceptionCode) : ofNumber? code.number = some code := by
  cases code <;> rfl

end ExceptionCode

namespace Cause

/-- The bits of the exception code. -/
def codeMask : Word := 0x7c

/-- The number in the exception code field. -/
def codeNumber (cause : Word) : Word := (cause &&& codeMask) >>> 2

/-- The exception code, if the field holds a known one. -/
def code? (cause : Word) : Option ExceptionCode := ExceptionCode.ofNumber? (codeNumber cause)

/-- The register with its exception code replaced. -/
def withCode (cause : Word) (code : ExceptionCode) : Word :=
  (cause &&& ~~~codeMask) ||| (code.number <<< 2)

/-- An interrupt line that has a pending bit. -/
abbrev Line := Fin 24

/-- The line with a given number; past line 23 its bit would fall out of the word. -/
def Line.ofNumber (n : UInt8) : Except Abort Line :=
  if h : n.toNat < 24 then .ok ⟨n.toNat, h⟩ else .error .shiftOverflow

/-- The line of the interval timer. -/
def Line.timer : Line := 2

/-- The line of the disks. -/
def Line.disk : Line := 3

/-- The line of the tapes. -/
def Line.tape : Line := 4

/-- The line of the network adapters. -/
def Line.network : Line := 5

/-- The line of the printers. -/
def Line.printer : Line := 6

/-- The line of the terminals. -/
def Line.terminal : Line := 7

/-- The pending bit of a line. -/
def lineBit (line : Line) : Word := 1 <<< UInt32.ofNat (8 + line)

/-- Whether a line is pending. -/
def isPending (cause : Word) (line : Line) : Bool := cause &&& lineBit line ≠ 0

/-- The register with a line made pending. -/
def withPending (cause : Word) (line : Line) : Word := cause ||| lineBit line

end Cause

end Nucleus
