import Nucleus.Word

/-!
# Faults and aborts

A `Fault` is a condition that the nucleus itself reports: it stops the machine, and the state
reached so far is kept. An `Abort` is a broken internal check: an arithmetic overflow, a slot that
does not exist, or an assertion on a data structure; nothing can be done with the state after it.
-/

namespace Nucleus

/-- The fatal conditions that the nucleus reports. -/
inductive Fault where
  /-- No free process descriptor for the root process. -/
  | processPoolExhausted
  /-- No free semaphore descriptor for a blocking wait. -/
  | semaphorePoolExhausted
  /-- Live processes exist, but none is ready or soft-blocked. -/
  | deadlock
  /-- A process trap arrived with no current process. -/
  | noCurrentProcess
  /-- An exception code that the vector does not handle. -/
  | unexpectedException (code : Word)
  /-- A wait named a line or device that does not exist. -/
  | invalidDevice (line device : Word)
  /-- The bus reports memory that does not fit the address space or cannot hold the root frame. -/
  | badRamGeometry (base size : Word)
  deriving DecidableEq

namespace Fault

/-- The word that names the kind of fault. -/
def kind : Fault → String
  | processPoolExhausted => "ProcessPoolExhausted"
  | semaphorePoolExhausted => "SemaphorePoolExhausted"
  | deadlock => "Deadlock"
  | noCurrentProcess => "NoCurrentProcess"
  | unexpectedException _ => "UnexpectedException"
  | invalidDevice _ _ => "InvalidDevice"
  | badRamGeometry _ _ => "BadRamGeometry"

/-- The sentence shown to a person. -/
def message : Fault → String
  | processPoolExhausted => "process pool exhausted"
  | semaphorePoolExhausted => "semaphore descriptor pool exhausted"
  | deadlock => "deadlock: no ready and no soft-blocked process"
  | noCurrentProcess => "trap with no current process"
  | unexpectedException code => "unexpected exception code " ++ toString code
  | invalidDevice line device =>
    "invalid device " ++ toString device ++ " on line " ++ toString line
  | badRamGeometry base size =>
    "bad RAM geometry: " ++ Word.hex size ++ " bytes at " ++ Word.hex8 base

/-- The kind of fault with its fields spelled out. -/
def describe : Fault → String
  | unexpectedException code => "UnexpectedException(" ++ toString code ++ ")"
  | invalidDevice line device =>
    "InvalidDevice \x7b line: " ++ toString line ++ ", device: " ++ toString device ++ " \x7d"
  | badRamGeometry base size =>
    "BadRamGeometry \x7b base: " ++ toString base ++ ", size: " ++ toString size ++ " \x7d"
  | f => f.kind

/-- The place in the order of faults of the fault of a kind with two fields. -/
def placeOf (kind : Nat) (first second : Word) : Nat :=
  (kind * UInt32.size + first.toNat) * UInt32.size + second.toNat

/-- The place of a fault in the order of faults: by kind as declared, then field by field. -/
def rank : Fault → Nat
  | processPoolExhausted => placeOf 0 0 0
  | semaphorePoolExhausted => placeOf 1 0 0
  | deadlock => placeOf 2 0 0
  | noCurrentProcess => placeOf 3 0 0
  | unexpectedException code => placeOf 4 code 0
  | invalidDevice line device => placeOf 5 line device
  | badRamGeometry base size => placeOf 6 base size

/-- The positions of a list of faults in ascending order; equal faults keep their places. -/
def sortedPositions (faults : List Fault) : List Nat :=
  (faults.zipIdx.mergeSort fun a b => a.1.rank ≤ b.1.rank).map (·.2)

end Fault

/-- The internal checks that can break. -/
inductive Abort where
  /-- A sum does not fit a word. -/
  | addOverflow
  /-- A difference is negative. -/
  | subOverflow
  /-- A shift by the width of a word or more. -/
  | shiftOverflow
  /-- A slot number past the process pool. -/
  | slotOutOfRange (slot : Nat)
  /-- A process is put into a queue that holds it. -/
  | queuedTwice
  /-- A process slot that is not in use is freed. -/
  | doubleFree
  /-- A new process finds no room in the pid table. -/
  | pidTableOutOfSync
  /-- A freed process slot finds no room in the free list. -/
  | processFreeListOverflow
  /-- A released semaphore descriptor finds no room in the free list. -/
  | semaphoreFreeListOverflow
  deriving DecidableEq

/-- The sentence that reports a broken check. -/
def Abort.message : Abort → String
  | addOverflow => "attempt to add with overflow"
  | subOverflow => "attempt to subtract with overflow"
  | shiftOverflow => "attempt to shift left with overflow"
  | slotOutOfRange slot => "index out of bounds: the len is 20 but the index is " ++ toString slot
  | queuedTwice => "process queued twice"
  | doubleFree => "double free of process slot"
  | pidTableOutOfSync => "pid table out of sync with the pool"
  | processFreeListOverflow => "process free list overflow"
  | semaphoreFreeListOverflow => "semaphore free list overflow"

namespace Word

/-- The next word; the largest has none. -/
def succ (w : Word) : Except Abort Word :=
  if w = allOnes then .error .addOverflow else .ok (w + 1)

/-- The word before; zero has none. -/
def pred (w : Word) : Except Abort Word :=
  if w = 0 then .error .subOverflow else .ok (w - 1)

end Word

end Nucleus
