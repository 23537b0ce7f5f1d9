import Nucleus.Kernel.Config
import Nucleus.Process.PidIndex
import Nucleus.Semaphore.WaitLists
import Nucleus.Semaphore.Values

/-!
# The kernel

The state of the nucleus together with the machine that it drives, what can be read off it, and
the small changes from which the rest is composed.
-/

namespace Nucleus

/-- The nucleus and its machine. -/
structure Kernel extends WaitRoom where
  /-- The machine. -/
  machine : Machine
  /-- The processes that wait for the processor, next first. -/
  ready : Queue Slot
  /-- The live pids. -/
  pids : PidIndex Slot
  /-- The semaphore values and latched statuses. -/
  values : SemaphoreValues
  /-- The running process. -/
  current : Option Slot
  /-- The number of live processes. -/
  liveCount : Word
  /-- The number of processes that wait for a device or the pseudo-clock. -/
  softCount : Word
  /-- The last pid handed out. -/
  lastPid : Word
  /-- The clock reading up to which the running process has been charged. -/
  chargedUntil : Word
  /-- The microseconds gathered towards the next tick of the pseudo-clock. -/
  tickMicros : Word
  /-- The clock reading up to which `tickMicros` has been gathered. -/
  tickUntil : Word
  /-- The configuration. -/
  config : Config

namespace Kernel

/-- A nucleus without processes, every semaphore at zero. -/
def new (machine : Machine) (config : Config) : Kernel where
  processes := .empty
  waits := .empty
  machine
  ready := .empty
  pids := .empty
  values := .zero
  current := none
  liveCount := 0
  softCount := 0
  lastPid := 0
  chargedUntil := 0
  tickMicros := 0
  tickUntil := 0
  config

/-- The running process. -/
def currentDescriptor (k : Kernel) : Option Descriptor := k.current.map k.processes.get

/-- The descriptor of a live process. -/
def descriptor? (k : Kernel) (pid : Pid) : Option Descriptor :=
  (k.pids.lookup pid).map k.processes.get

/-- The pid of the process in a slot. -/
def pidAt (k : Kernel) (h : Slot) : Pid := (k.processes.get h).pid

/-- The parent of a live process. -/
def parent (k : Kernel) (pid : Pid) : Option Pid := do
  k.pidAt (← (← k.descriptor? pid).parent)

/-- The children of a live process, oldest first. -/
def children (k : Kernel) (pid : Pid) : List Pid :=
  match k.descriptor? pid with
  | none => []
  | some d => d.children.map k.pidAt

/-- The ready processes, next first. -/
def readyPids (k : Kernel) : List Pid := k.ready.items.map k.pidAt

/-- The descriptors of the live processes in the order of their pids. -/
def liveDescriptors (k : Kernel) : List Descriptor :=
  (k.processes.used.map k.processes.get).mergeSort fun a b => a.pid ≤ b.pid

/-- The value of a semaphore. -/
def value (k : Kernel) (id : SemaphoreId) : Count := k.values.value k.machine id

/-- The number of processes that wait on a semaphore. -/
def waiterCount (k : Kernel) (id : SemaphoreId) : Nat := k.waits.waiterCount id

/-- The semaphores on which processes wait, in order, each with its value and the number of its
waiters. -/
def activeSemaphores (k : Kernel) : List (SemaphoreId × Count × Nat) :=
  k.waits.ids.map fun id => (id, k.value id, k.waiterCount id)

/-- The status latched for a device. -/
def latched (k : Kernel) (d : Device) : Word := k.values.latched d

/-- Change the descriptor in a slot. -/
def modify (k : Kernel) (h : Slot) (f : Descriptor → Descriptor) : Kernel :=
  { k with processes := k.processes.modify h f }

/-- Give a process a result. -/
def giveResult (k : Kernel) (h : Slot) (value : Word) : Kernel :=
  k.modify h (·.withResult value)

/-- Add `delta` to a semaphore. -/
def add (k : Kernel) (id : SemaphoreId) (delta : Count) : Kernel :=
  let (values, machine) := k.values.add k.machine id delta
  { k with values, machine }

/-- Write a word of memory. -/
def writeWord (k : Kernel) (address value : Word) : Kernel :=
  { k with machine := k.machine.write address value }

/-- Append a process to the ready queue. -/
def makeReady (k : Kernel) (h : Slot) : Except Abort Kernel := do
  return { k with ready := ← k.ready.enqueue h }

/-- One more process waits for a device or the clock. -/
def softUp (k : Kernel) : Except Abort Kernel := do
  return { k with softCount := ← Word.succ k.softCount }

/-- One process fewer waits for a device or the clock. -/
def softDown (k : Kernel) : Except Abort Kernel := do
  return { k with softCount := ← Word.pred k.softCount }

end Kernel

/-- An action on the wait room as an action on the kernel. -/
def WaitRoom.onKernel {α : Type} (x : Action WaitRoom α) : Action Kernel α :=
  x.within Kernel.toWaitRoom fun k room => { k with toWaitRoom := room }

end Nucleus
