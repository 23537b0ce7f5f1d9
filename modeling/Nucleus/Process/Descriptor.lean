import Nucleus.Processor.State
import Nucleus.Semaphore.Id

/-!
# Process descriptors

What the nucleus keeps about a process: its saved state, its place in the process tree, the time
it has used, what it waits for, and the handlers that it has for its own exceptions.
-/

namespace Nucleus

/-- The number of process descriptors, and of wait lists. -/
abbrev maxProcesses : Nat := 20

/-- A slot of the process table. -/
abbrev Slot := Fin maxProcesses

/-- The slot with a given number. -/
def Slot.ofNumber (n : Nat) : Except Abort Slot :=
  if h : n < maxProcesses then .ok ⟨n, h⟩ else .error (.slotOutOfRange n)

/-- The number by which user code names a process. -/
abbrev Pid := Word

/-- A pid spelled out. -/
def Pid.describe (pid : Pid) : String := "Pid(" ++ toString pid ++ ")"

/-- What a process waits for. -/
inductive WaitKind where
  /-- Nothing: it is not blocked. -/
  | none
  /-- A device that completes. -/
  | device
  /-- The next tick of the pseudo-clock. -/
  | clock
  /-- A user semaphore. -/
  | semaphore
  deriving DecidableEq

/-- Whether the wait ends by itself, without the help of another process. -/
def WaitKind.isSoft : WaitKind → Bool
  | device | clock => true
  | none | semaphore => false

/-- The classes of exceptions that a process may handle itself. -/
inductive ExceptionClass where
  /-- Address translation faults. -/
  | tlb
  /-- Program traps. -/
  | programTrap
  /-- Service requests and breakpoints. -/
  | sysBreak
  deriving DecidableEq

namespace ExceptionClass

/-- The number of classes. -/
abbrev count : Nat := 3

/-- The place of a class in the tables of a descriptor. -/
def place : ExceptionClass → Fin count
  | tlb => 0
  | programTrap => 1
  | sysBreak => 2

/-- A class spelled out. -/
def describe : ExceptionClass → String
  | tlb => "Tlb"
  | programTrap => "ProgramTrap"
  | sysBreak => "SysBreak"

theorem place_injective {c d : ExceptionClass} (h : c.place = d.place) : c = d := by
  cases c <;> cases d <;> revert h <;> decide

end ExceptionClass

/-- A handler of a process: where the interrupted state is stored, and where the handler's own
state is found. -/
structure Handler where
  oldArea : Word
  newArea : Word
  deriving DecidableEq

/-- A process descriptor. -/
structure Descriptor where
  /-- The number of the process; zero while the slot is free. -/
  pid : Pid
  /-- The saved processor state. -/
  state : ProcessorState
  /-- The process that created this one, unless it is the root or has been detached. -/
  parent : Option Slot
  /-- The processes that this one created, oldest first. -/
  children : List Slot
  /-- The microseconds used since creation; they wrap. -/
  usedTime : Word
  /-- The microseconds used in the current quantum. -/
  quantumTime : Word
  /-- The semaphore on which the process is queued. -/
  waitsOn : Option SemaphoreId
  /-- What it waits for. -/
  wait : WaitKind
  /-- The handler of each class of exceptions. -/
  handlers : Table ExceptionClass.count (Option Handler)
  /-- How often a handler of each class has been announced. -/
  announced : Table ExceptionClass.count Word
  deriving DecidableEq

namespace Descriptor

/-- The descriptor of no process. -/
def blank : Descriptor where
  pid := 0
  state := .zero
  parent := none
  children := []
  usedTime := 0
  quantumTime := 0
  waitsOn := none
  wait := .none
  handlers := Table.fill ExceptionClass.count none
  announced := Table.fill ExceptionClass.count 0

/-- The handler of a class of exceptions. -/
def handler (d : Descriptor) (c : ExceptionClass) : Option Handler := d.handlers.get c.place

/-- The descriptor with a result for the process in its saved state. -/
def withResult (d : Descriptor) (value : Word) : Descriptor :=
  { d with state := d.state.withResult value }

/-- The descriptor of a process that goes on behind the instruction at which it stopped. -/
def skipInstruction (d : Descriptor) : Descriptor :=
  { d with state := { d.state with pc := d.state.pc + wordSize } }

/-- The descriptor with `micros` more used in all and in this quantum. -/
def charge (d : Descriptor) (micros : Word) : Descriptor :=
  { d with
    usedTime := d.usedTime + micros
    quantumTime := Word.saturatingAdd d.quantumTime micros }

end Descriptor

end Nucleus
