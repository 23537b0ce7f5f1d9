import Nucleus.Action
import Nucleus.Process.Queue
import Nucleus.Process.Table

/-!
# Wait lists

The queues of the processes that wait on semaphores, in a fixed table. A wait list is active
exactly while processes wait in it: the active ones are kept in the order of their semaphores, and
a list whose last waiter leaves goes to the end of the free list. `WaitRoom` joins the wait lists
with the process table, whose descriptors record the semaphore on which each process waits.
-/

namespace Nucleus

/-- A wait list: its semaphore, if it is active, and the processes that wait. -/
structure WaitList where
  id : Option SemaphoreId
  queue : Queue Slot
  deriving DecidableEq

/-- The table of wait lists. -/
structure WaitLists where
  /-- The wait lists. -/
  lists : Table maxProcesses WaitList
  /-- The active wait lists in the order of their semaphores. -/
  active : List (Fin maxProcesses)
  /-- The wait lists that are not active. -/
  free : FreeList maxProcesses
  deriving DecidableEq

namespace WaitLists

/-- The table in which nobody waits. -/
def empty : WaitLists where
  lists := Table.fill maxProcesses ⟨none, .empty⟩
  active := []
  free := .full maxProcesses

/-- The semaphore of a wait list. -/
def idAt (w : WaitLists) (i : Fin maxProcesses) : Option SemaphoreId := (w.lists.get i).id

/-- The processes in a wait list. -/
def queueAt (w : WaitLists) (i : Fin maxProcesses) : Queue Slot := (w.lists.get i).queue

/-- The active wait list of a semaphore. -/
def find (w : WaitLists) (id : SemaphoreId) : Option (Fin maxProcesses) :=
  w.active.find? fun i => w.idAt i = some id

/-- Whether the semaphore of a wait list comes before `id`; a list without one comes first. -/
def isBefore (w : WaitLists) (id : SemaphoreId) (i : Fin maxProcesses) : Bool :=
  match w.idAt i with
  | none => true
  | some other => other.rank < id.rank

/-- Give a wait list to a semaphore and put it in its place among the active ones. -/
def activate (w : WaitLists) (id : SemaphoreId) (i : Fin maxProcesses) : WaitLists :=
  { w with
    lists := w.lists.modify i ({ · with id := some id })
    active := w.active.takeWhile (w.isBefore id) ++ i :: w.active.dropWhile (w.isBefore id) }

/-- The wait list of a semaphore, taken from the free list if the semaphore has none. -/
def assign (w : WaitLists) (id : SemaphoreId) : Option (Fin maxProcesses × WaitLists) :=
  match w.find id with
  | some i => some (i, w)
  | none => w.free.pop.map fun (i, free) => (i, { w with free }.activate id i)

/-- Replace the processes in a wait list. -/
def setQueue (w : WaitLists) (i : Fin maxProcesses) (queue : Queue Slot) : WaitLists :=
  { w with lists := w.lists.modify i ({ · with queue }) }

/-- Take a wait list off the active ones and free it. -/
def release (w : WaitLists) (i : Fin maxProcesses) : Except Abort WaitLists :=
  match w.free.push i with
  | some free =>
    .ok { lists := w.lists.modify i ({ · with id := none })
          active := w.active.erase i
          free }
  | none => .error .semaphoreFreeListOverflow

/-- Leave `rest` in an active wait list, and free it if that is nobody. -/
def shrink (w : WaitLists) (i : Fin maxProcesses) (rest : Queue Slot) : Except Abort WaitLists :=
  let w := w.setQueue i rest
  if rest.isEmpty then w.release i else .ok w

/-- The processes that wait on a semaphore, oldest first. -/
def waiting (w : WaitLists) (id : SemaphoreId) : List Slot :=
  ((w.find id).map fun i => (w.queueAt i).items).getD []

/-- The number of processes that wait on a semaphore. -/
def waiterCount (w : WaitLists) (id : SemaphoreId) : Nat := (w.waiting id).length

/-- The process that has waited longest on a semaphore. -/
def oldest (w : WaitLists) (id : SemaphoreId) : Option Slot := (w.waiting id).head?

/-- The semaphores on which processes wait, in ascending order. -/
def ids (w : WaitLists) : List SemaphoreId := w.active.filterMap w.idAt

/-- The number of free wait lists. -/
def freeCount (w : WaitLists) : Nat := w.free.size

end WaitLists

/-- The process table and the wait lists. -/
structure WaitRoom where
  /-- The process table. -/
  processes : ProcessTable
  /-- The wait lists. -/
  waits : WaitLists

namespace WaitRoom

/-- Let a process wait on a semaphore. If nobody waits there yet, that takes a free wait list. -/
def enter (id : SemaphoreId) (h : Slot) : Action WaitRoom Unit := fun r =>
  match r.waits.assign id with
  | none => .fault .semaphorePoolExhausted r []
  | some (i, waits) =>
    match (waits.queueAt i).enqueue h with
    | .error cause => .abort cause
    | .ok queue =>
      .ok () ⟨r.processes.modify h ({ · with waitsOn := some id }), waits.setQueue i queue⟩
        [.blocked (r.processes.get h).pid id]

/-- Let the process in a numbered slot wait on a semaphore. A number past the process table is
noticed only when its descriptor is touched, after a wait list has been found. -/
def enterNumber (id : SemaphoreId) (slot : Nat) : Action WaitRoom Unit := fun r =>
  match Slot.ofNumber slot with
  | .ok h => enter id h r
  | .error cause =>
    if (r.waits.assign id).isNone then .fault .semaphorePoolExhausted r [] else .abort cause

/-- Release the process that has waited longest on a semaphore. -/
def callNext (id : SemaphoreId) : Action WaitRoom (Option Slot) := fun r =>
  match r.waits.find id with
  | none => .ok none r []
  | some i =>
    match (r.waits.queueAt i).dequeue with
    | none => .ok none r []
    | some (h, rest) =>
      match r.waits.shrink i rest with
      | .error cause => .abort cause
      | .ok waits =>
        .ok (some h) ⟨r.processes.modify h ({ · with waitsOn := none }), waits⟩
          [.woke (r.processes.get h).pid id]

/-- Take a process out of the wait list of the semaphore that its descriptor records. If it records
none or does not stand there, nothing changes. -/
def withdraw (h : Slot) : Action WaitRoom (Option Slot) := fun r =>
  match (r.processes.get h).waitsOn.bind r.waits.find with
  | none => .ok none r []
  | some i =>
    match (r.waits.queueAt i).take h with
    | none => .ok none r []
    | some rest =>
      match r.waits.shrink i rest with
      | .error cause => .abort cause
      | .ok waits => .ok (some h) ⟨r.processes.modify h ({ · with waitsOn := none }), waits⟩ []

end WaitRoom

end Nucleus
