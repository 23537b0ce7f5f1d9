import Nucleus.Kernel.Decision

/-!
# Interrupts

One source is served per interrupt, the lowest line first; whatever else is pending interrupts
again as soon as it can.
-/

namespace Nucleus

/-- What an interrupt is served for. -/
inductive InterruptSource where
  /-- The interval timer. -/
  | timer
  /-- A line of plain devices. -/
  | device (family : DeviceFamily)
  /-- The line of the terminals. -/
  | terminal
  /-- No line that is served. -/
  | stray
  deriving DecidableEq

namespace InterruptSource

/-- The families of plain devices in the order of their lines. -/
def plainFamilies : List DeviceFamily := [.disk, .tape, .network, .printer]

/-- The source to serve, given the cause register. -/
def ofCause (cause : Word) : InterruptSource :=
  if Cause.isPending cause .timer then .timer
  else
    match plainFamilies.find? fun family => Cause.isPending cause family.line with
    | some family => .device family
    | none =>
      if Cause.isPending cause .terminal then .terminal else .stray

end InterruptSource

namespace Kernel

/-- Release a waiter of the pseudo-clock and give back its unit, `n` times. -/
def releaseClock : Nat → Action Kernel Unit
  | 0 => pure ()
  | n + 1 => do
    discard (wakeNext .clock)
    Action.change (·.add .clock 1)
    releaseClock n

/-- Tick the pseudo-clock: release every waiter if its value says that there are any, else leave
the tick pending. -/
def tickClock : Action Kernel Unit := do
  let value := (← Action.look values).clock.toInt
  if value < 0 then releaseClock (-value).toNat
  else
    match ← wakeNext .clock with
    | some _ => Action.change (·.add .clock 1)
    | none => Action.change (·.add .clock (-1))
  Action.note .clockTick

/-- The timer ran out: either a tick is due, or the quantum of the running process is used up. -/
def serveTimer : Action Kernel Unit := do
  Action.change gatherTick
  if ← Action.look tickIsDue then
    tickClock
    Action.change ({ · with tickMicros := 0 })
  else
    match ← Action.look current with
    | none => pure ()
    | some h =>
      Action.change ({ · with current := none })
      Action.note (.quantumExpired (← Action.look (·.pidAt h)))
      Action.attempt (·.makeReady h)

/-- A device completed: its status goes to the oldest waiter, or is latched if there is none. -/
def handOver (d : Device) (status : Word) : Action Kernel Unit := do
  Action.change (·.add (.device d) 1)
  match ← wakeNext (.device d) with
  | some h => Action.change (·.giveResult h status)
  | none => Action.change fun k => { k with values := k.values.latch d status }

/-- Serve a completed device and acknowledge it. -/
def serveCompleted (d : Device) : Action Kernel Unit := do
  handOver d (← Action.look (·.machine.read d.statusRegister))
  Action.change (·.writeWord d.commandRegister acknowledgeCommand)

/-- The lowest unit of a line that waits for service. -/
def nextUnit (line : Cause.Line) : Action Kernel (Option (Fin unitsPerLine)) := do
  let unit := lowestRaised (← Action.look (·.machine.read (bitmapOf line)))
  if unit.isNone then Action.note (.emptyBitmap line)
  return unit

/-- Serve the lowest raised device of a family. -/
def serveDevice (family : DeviceFamily) : Action Kernel Unit := do
  match ← nextUnit family.line with
  | none => pure ()
  | some unit => serveCompleted ⟨family, unit⟩

/-- Serve the lowest raised terminal, its transmitter before its receiver. -/
def serveTerminal : Action Kernel Unit := do
  match ← nextUnit .terminal with
  | none => pure ()
  | some unit =>
    let machine ← Action.look machine
    if machine.hasCompleted ⟨.terminalTransmit, unit⟩ then
      serveCompleted ⟨.terminalTransmit, unit⟩
    else if machine.hasCompleted ⟨.terminalReceive, unit⟩ then
      serveCompleted ⟨.terminalReceive, unit⟩
    else Action.note (.nothingCompleted unit)

/-- Serve the interrupt whose cause register is `cause`. -/
def serveInterrupt (cause : Word) : Action Kernel Unit :=
  match InterruptSource.ofCause cause with
  | .timer => serveTimer
  | .device family => serveDevice family
  | .terminal => serveTerminal
  | .stray => Action.note (.strayInterrupt cause)

/-- An interrupt taken while a process ran or while the processor waited. -/
def handleInterrupt : Action Kernel Decision := do
  let trap ← Action.look (·.machine.loadState TrapVector.interrupt.oldArea)
  Action.change fun k =>
    match k.current with
    | some h => (k.modify h ({ · with state := trap })).charge
    | none => k
  serveInterrupt trap.cause
  schedule

end Kernel

end Nucleus
