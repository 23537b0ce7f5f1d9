import Nucleus.Processor.Cause

/-!
# Events

What can make the processor trap.
-/

namespace Nucleus

/-- A cause of a trap. -/
inductive Event where
  /-- A service request: the request number in `a0`, the arguments in `a1` to `a3`. -/
  | request (number a1 a2 a3 : Word) (fromUser : Bool)
  /-- A breakpoint. -/
  | breakpoint
  /-- An address translation fault. -/
  | tlb
  /-- A program trap with the given code. -/
  | programTrap (code : ExceptionCode)
  /-- The interval timer runs out. -/
  | timer
  /-- A device completes with a status. -/
  | device (line unit : UInt8) (status : Word)
  /-- A terminal completes; a half without a status is left as it is. -/
  | terminal (unit : UInt8) (transmitted received : Option Word)
  /-- A line is raised and nothing else. -/
  | interrupt (line : UInt8)
  deriving DecidableEq

/-- The request number that ends a process. -/
def terminateRequest : Word := 2

/-- The event of a program that has nothing left to do: it asks to be terminated. -/
def Event.exit : Event := .request terminateRequest Word.allOnes 0 0 false

end Nucleus
