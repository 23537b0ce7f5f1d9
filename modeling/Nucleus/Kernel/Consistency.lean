import Nucleus.Kernel.Basic

/-!
# Consistency

A check that the counters and queues of the nucleus agree with the descriptors: every allocated
descriptor is running, ready or queued on a semaphore, and in one of these places only; it is found
through the pid index, and linked both ways with its parent and its children.
-/

namespace Nucleus.Kernel

/-- Whether a process is in exactly one place, and its descriptor says which. -/
def isPlaced (k : Kernel) (h : Slot) : Bool :=
  let d := k.processes.get h
  let waiting := d.waitsOn.isSome
  (k.current == some h).toNat + (k.ready.contains h).toNat + waiting.toNat == 1 &&
    waiting == (d.wait != .none) &&
    d.waitsOn.all fun id => 0 < k.waiterCount id

/-- Whether a process is linked both ways with its parent and with each of its children. -/
def isLinked (k : Kernel) (h : Slot) : Bool :=
  let d := k.processes.get h
  (d.parent.all fun parent =>
      k.processes.isUsed parent && (k.processes.children parent).contains h) &&
    d.children.all fun child => (k.processes.get child).parent == some h

/-- Whether the counters agree with what they count. -/
def countsAgree (k : Kernel) : Bool :=
  let used := k.processes.used
  let descriptors := used.map k.processes.get
  k.liveCount.toNat == used.length &&
    k.pids.length == used.length &&
    k.softCount.toNat == descriptors.countP (·.wait.isSoft) &&
    (k.waits.ids.flatMap k.waits.waiting).length == descriptors.countP (·.waitsOn.isSome)

/-- Whether the nucleus is consistent. -/
def isConsistent (k : Kernel) : Bool :=
  k.countsAgree &&
    (k.processes.used.all fun h =>
      k.pids.lookup (k.pidAt h) == some h && k.isPlaced h && k.isLinked h) &&
    k.ready.items.all k.processes.isUsed &&
    k.current.all k.processes.isUsed

end Nucleus.Kernel
