import Nucleus.Word

/-!
# Trap vectors

The four kinds of trap. For each the processor stores the interrupted state in a fixed old area
and loads the handler's state from a fixed new area.
-/

namespace Nucleus

/-- The kinds of trap. -/
inductive TrapVector where
  /-- Address translation faults. -/
  | tlb
  /-- Program traps. -/
  | programTrap
  /-- Service requests and breakpoints. -/
  | sysBreak
  /-- Device and timer interrupts. -/
  | interrupt
  deriving DecidableEq

namespace TrapVector

/-- The vectors in the order in which they are installed. -/
def all : List TrapVector := [sysBreak, programTrap, tlb, interrupt]

/-- The place of a vector in the order of installation. -/
def position : TrapVector → Nat
  | sysBreak => 0
  | programTrap => 1
  | tlb => 2
  | interrupt => 3

/-- Where the processor saves the interrupted state. -/
def oldArea : TrapVector → Word
  | interrupt => 0x20000000
  | tlb => 0x20000118
  | programTrap => 0x20000230
  | sysBreak => 0x20000348

/-- Where the processor finds the handler's state. -/
def newArea : TrapVector → Word
  | interrupt => 0x2000008c
  | tlb => 0x200001a4
  | programTrap => 0x200002bc
  | sysBreak => 0x200003d4

end TrapVector

end Nucleus
