import Nucleus.Kernel.Time

/-!
# Decisions

What the processor does next. Ready processes take turns: a running process goes on until its
quantum is used up, and then the head of the ready queue is dispatched. The interval timer is always
set for whichever comes first, the end of the quantum or the next tick of the pseudo-clock.
-/

namespace Nucleus

/-- What the processor does next. -/
inductive Decision where
  /-- Load `state` and run process `pid`. -/
  | resume (pid : Pid) (state : ProcessorState)
  /-- Wait for an interrupt. -/
  | idle
  /-- Stop: no process is left. -/
  | halt
  deriving DecidableEq

namespace Kernel

/-- Queue the running process on a semaphore and give up the processor. -/
def suspend (id : SemaphoreId) (wait : WaitKind) : Action Kernel Unit := do
  match ← Action.look current with
  | none => Action.fail .noCurrentProcess
  | some h =>
    WaitRoom.onKernel (WaitRoom.enter id h)
    Action.change (·.modify h ({ · with wait }))
    if wait.isSoft then Action.attempt softUp
    Action.change ({ · with current := none })

/-- Move the oldest waiter of a semaphore to the ready queue. -/
def wakeNext (id : SemaphoreId) : Action Kernel (Option Slot) := do
  match ← WaitRoom.onKernel (WaitRoom.callNext id) with
  | none => return none
  | some h =>
    if (← Action.look (·.processes.get h)).wait.isSoft then Action.attempt softDown
    Action.change (·.modify h ({ · with wait := .none }))
    Action.attempt (·.makeReady h)
    return some h

/-- Let the running process go on with what is left of its quantum. -/
def resumeCurrent (k : Kernel) (h : Slot) : Outcome Kernel Decision :=
  let k := k.charge.gatherTick
  let d := k.processes.get h
  let left := Word.saturatingSub k.config.quantum d.quantumTime
  .ok (.resume d.pid d.state) (k.setTimer (min left k.untilTick)) [.resuming d.pid]

/-- Give the processor to a process taken from the ready queue, with a new quantum. -/
def dispatchNext (k : Kernel) (h : Slot) (rest : Queue Slot) : Outcome Kernel Decision :=
  let k := { k with ready := rest, current := some h, chargedUntil := k.machine.now }.gatherTick
  let k := k.modify h ({ · with quantumTime := 0 })
  let d := k.processes.get h
  .ok (.resume d.pid d.state) (k.setTimer (min k.config.quantum k.untilTick))
    [.dispatching d.pid]

/-- Decide what happens when no process can run: the machine halts if none is alive, is stuck if
nothing can make one ready, and otherwise waits for an interrupt. -/
def waitOrStop (k : Kernel) : Outcome Kernel Decision :=
  if k.liveCount = 0 then .ok .halt k [.nothingLeft]
  else if k.softCount = 0 then .fault .deadlock k [.stuck k.liveCount]
  else
    let k := k.gatherTick
    .ok .idle (k.setTimer k.untilTick) [.idle k.softCount]

/-- Decide what runs next. -/
def schedule : Action Kernel Decision := fun k =>
  match k.current with
  | some h => k.resumeCurrent h
  | none =>
    match k.ready.dequeue with
    | some (h, rest) => k.dispatchNext h rest
    | none => k.waitOrStop

end Kernel

end Nucleus
