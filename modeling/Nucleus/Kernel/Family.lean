import Nucleus.Kernel.Basic

/-!
# Families of processes

A process is created as the youngest child of another, and it is terminated together with all its
descendants.
-/

namespace Nucleus.Kernel

/-- Create a ready process with a saved state, the youngest child of `parent` if one is given.
Without a free descriptor nothing happens. -/
def create (state : ProcessorState) (parent : Option Slot) : Action Kernel (Option Slot) := do
  match ← Action.look (·.processes.allocate) with
  | none => return none
  | some (h, processes) =>
    let pid ← Action.check (Word.succ (← Action.look lastPid))
    Action.change fun k =>
      { k with processes := processes.modify h ({ · with pid, state }), lastPid := pid }
    Action.attempt fun k =>
      match k.pids.insert pid h with
      | some pids => .ok { k with pids }
      | none => .error .pidTableOutOfSync
    match parent with
    | some parent => Action.change fun k => { k with processes := k.processes.attach parent h }
    | none => pure ()
    Action.attempt (·.makeReady h)
    Action.attempt fun k => do return { k with liveCount := ← Word.succ k.liveCount }
    Action.note (.created pid (← Action.look fun k => parent.map k.pidAt))
    return some h

/-- Take a process off the queue in which it stands. A process that waits on a user semaphore or
the pseudo-clock gives back the unit that it asked for. A device keeps it: the completion still
comes. -/
def leaveQueue (h : Slot) : Action Kernel Unit := do
  let d ← Action.look (·.processes.get h)
  match d.wait with
  | .none => Action.change fun k => { k with ready := k.ready.erase h }
  | .semaphore =>
    match d.waitsOn with
    | some id => Action.change (·.add id 1)
    | none => pure ()
    discard (WaitRoom.onKernel (WaitRoom.withdraw h))
  | .clock =>
    Action.change (·.add .clock 1)
    discard (WaitRoom.onKernel (WaitRoom.withdraw h))
    Action.attempt softDown
  | .device =>
    discard (WaitRoom.onKernel (WaitRoom.withdraw h))
    Action.attempt softDown

/-- Remove one process from the nucleus. -/
def retire (h : Slot) : Action Kernel Unit := do
  let pid ← Action.look (·.pidAt h)
  Action.change fun k => { k with processes := k.processes.detach h }
  leaveQueue h
  Action.change fun k => if k.current = some h then { k with current := none } else k
  Action.change fun k => { k with pids := k.pids.remove pid }
  Action.attempt fun k => do return { k with processes := ← k.processes.release h }
  Action.attempt fun k => do return { k with liveCount := ← Word.pred k.liveCount }
  Action.note (.terminated pid)

/-- Terminate a process and all its descendants, each after its own descendants. The answer is
whether the process was alive. -/
def terminate (pid : Pid) : Action Kernel Bool := do
  match ← Action.look (·.pids.lookup pid) with
  | none => return false
  | some victim =>
    (← Action.look (·.processes.family maxProcesses victim)).forM retire
    return true

end Nucleus.Kernel
