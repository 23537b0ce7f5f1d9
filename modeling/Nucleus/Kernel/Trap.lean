import Nucleus.Kernel.Interrupt
import Nucleus.Kernel.Service

/-!
# Traps

The processor saves the interrupted state in the old area of a vector and enters the nucleus,
which acts on it and decides what runs next. An exception that the nucleus does not serve goes to
the handler that the process announced for its class, and without one the process is terminated.
-/

namespace Nucleus.Kernel

/-- Copy the old area of a vector into the descriptor of the running process. -/
def capture (vector : TrapVector) : Action Kernel (Slot × ProcessorState) := do
  match ← Action.look current with
  | none => Action.fail .noCurrentProcess
  | some h =>
    let trap ← Action.look (·.machine.loadState vector.oldArea)
    Action.change fun k => (k.modify h ({ · with state := trap })).charge
    return (h, trap)

/-- Store the interrupted state in a handler's old area and let the process go on with the state in
its new area. -/
def enterHandler (h : Slot) (handler : Handler) (trap : ProcessorState) :
    Action Kernel Unit := do
  Action.attempt fun k => do
    return { k with machine := ← k.machine.writeState handler.oldArea trap }
  let state ← Action.check ((← Action.look machine).readState handler.newArea)
  Action.change (·.modify h ({ · with state }))

/-- Hand an exception to the process's own handler; without one the process is terminated. -/
def raiseException (h : Slot) (c : ExceptionClass) (trap : ProcessorState) :
    Action Kernel Unit := do
  let d ← Action.look (·.processes.get h)
  match d.handler c with
  | some handler =>
    Action.note (.passedUp d.pid c)
    enterHandler h handler trap
  | none =>
    Action.note (.unhandled d.pid c)
    discard (terminate d.pid)

/-- A program trap of the running process. -/
def handleProgramTrap : Action Kernel Decision := do
  let (h, trap) ← capture .programTrap
  raiseException h .programTrap trap
  schedule

/-- An address translation fault of the running process. -/
def handleTlb : Action Kernel Decision := do
  let (h, trap) ← capture .tlb
  raiseException h .tlb trap
  schedule

/-- A service request of process `h` from kernel mode. An unknown one is an exception
of its class. -/
def handleRequest (h : Slot) (trap : ProcessorState) : Action Kernel Decision := do
  match Service.ofTrap? trap with
  | some service => serve h service
  | none => raiseException h .sysBreak trap
  schedule

/-- A service request of process `h` from user mode. A number of the nucleus is refused as a
reserved instruction, which is a program trap; any other is an exception of its class. -/
def handleUserRequest (h : Slot) (trap : ProcessorState) : Action Kernel Decision := do
  if Service.isReserved trap.a0 then
    let refused := { trap with cause := Cause.withCode trap.cause .reservedInstruction }
    Action.change fun k =>
      { k with machine := k.machine.storeState TrapVector.programTrap.oldArea refused }
    handleProgramTrap
  else
    raiseException h .sysBreak trap
    schedule

/-- A service request or breakpoint of the running process, which goes on behind the instruction
that trapped. -/
def handleSysBreak : Action Kernel Decision := do
  let (h, trap) ← capture .sysBreak
  Action.change (·.modify h (·.skipInstruction))
  match trap.code? with
  | some .syscall => if trap.fromUserMode then handleUserRequest h trap else handleRequest h trap
  | some .breakpoint => do
    raiseException h .sysBreak trap
    schedule
  | _ => Action.fail (.unexpectedException (Cause.codeNumber trap.cause))

/-- Handle the trap whose state is in the old area of a vector. -/
def dispatch : TrapVector → Action Kernel Decision
  | .sysBreak => handleSysBreak
  | .programTrap => handleProgramTrap
  | .tlb => handleTlb
  | .interrupt => handleInterrupt

/-- Let the machine run until it traps. -/
def untilTrap (run : Machine → Except Abort (TrapVector × Machine)) :
    Action Kernel TrapVector := do
  let (vector, machine) ← Action.check (run (← Action.look machine))
  Action.change ({ · with machine })
  return vector

/-- Let an event happen to the running process, or to the waiting processor, and handle its
trap. -/
def deliver (event : Event) : Action Kernel Decision := do
  let running ← Action.look fun k => k.currentDescriptor.map (·.state)
  dispatch (← untilTrap (·.trap event running))

end Nucleus.Kernel
