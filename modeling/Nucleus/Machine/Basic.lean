import Nucleus.Machine.Device
import Nucleus.Machine.Event
import Nucleus.Machine.Memory
import Nucleus.Processor.State
import Nucleus.Processor.Vector

/-!
# The machine

The platform that the nucleus drives: memory with the bus and device registers in it, a script of
events to come, and a record of what the processor was told to do. A trap stores the interrupted
state in the old area of its vector; a command `1` written to a device acknowledges its interrupt.
-/

namespace Nucleus

/-- The bus register with the address of the lowest word of installed memory. -/
def Bus.ramBase : Word := 0x10000000
/-- The bus register with the number of bytes of installed memory. -/
def Bus.ramSize : Word := 0x10000004
/-- The bus register that counts clock ticks. -/
def Bus.clock : Word := 0x1000001c
/-- The bus register that counts down to a timer interrupt. -/
def Bus.timer : Word := 0x10000020
/-- The bus register with the number of clock ticks in a microsecond. -/
def Bus.timeScale : Word := 0x10000024

/-- What a board supplies to the nucleus at start-up. -/
structure Board where
  /-- The state that the processor stores on request. -/
  stored : ProcessorState
  /-- The entry point of each trap handler. -/
  entry : TrapVector → Word

/-- The machine. -/
structure Machine where
  /-- Memory and registers. -/
  memory : Memory
  /-- Events to come, each with the microseconds that pass before it. -/
  script : List (Word × Event)
  /-- The states that have been loaded, oldest first. -/
  resumed : List ProcessorState
  /-- How often the processor has waited for an interrupt. -/
  waitCount : Nat
  /-- Whether the machine has been stopped in good order. -/
  halted : Bool
  /-- Whether the machine has been stopped by a fault. -/
  crashed : Bool
  /-- The board. -/
  board : Board

namespace Machine

/-- The lowest address of installed memory. -/
def ramBase : Word := 0x20000000

/-- The number of bytes of installed memory. -/
def ramSize : Word := 0x100000

/-- The first address past installed memory. -/
def ramTop : Word := ramBase + ramSize

/-- The entry point of the first trap handler. -/
def trapEntry : Word := 0x1fc00180

/-- A board whose handlers follow each other every 128 bytes in the order of installation, and
whose processor runs with interrupts enabled, in user mode and with virtual memory on. -/
def defaultBoard : Board where
  stored :=
    { ProcessorState.zero with
      status := Status.iec ||| Status.kuc ||| Status.unmasked ||| Status.vmc ||| Status.vmp }
  entry vector := trapEntry + UInt32.ofNat (vector.position * 0x80)

/-- A machine at time zero with one clock tick to a microsecond. -/
def new : Machine where
  memory :=
    ((Memory.zero.write Bus.ramBase ramBase).write Bus.ramSize ramSize).write Bus.timeScale 1
  script := []
  resumed := []
  waitCount := 0
  halted := false
  crashed := false
  board := defaultBoard

/-- The word at an address. -/
def read (m : Machine) (address : Word) : Word := m.memory.read address

/-- Set a word without any effect on devices. -/
def set (m : Machine) (address value : Word) : Machine :=
  { m with memory := m.memory.write address value }

/-- Set the number of clock ticks in a microsecond. -/
def withTimeScale (m : Machine) (scale : Word) : Machine := m.set Bus.timeScale scale

/-- Whether half a terminal has completed and is not acknowledged. -/
def hasCompleted (m : Machine) (d : Device) : Bool := isCompleted (m.read d.statusRegister)

/-- Drop a device's pending bit. -/
def lowerBit (m : Machine) (d : Device) : Machine :=
  m.set d.bitmap (m.read d.bitmap &&& ~~~d.bit)

/-- A device is acknowledged: it becomes ready, and its pending bit drops unless it belongs to a
terminal with a completed half left. -/
def acknowledge (m : Machine) (d : Device) : Machine :=
  let m := m.set d.statusRegister readyStatus
  if d.family.isTerminal && (m.hasCompleted ⟨.terminalTransmit, d.unit⟩ ||
      m.hasCompleted ⟨.terminalReceive, d.unit⟩) then m
  else m.lowerBit d

/-- Write a word; the acknowledge command in a command register reaches its device. -/
def write (m : Machine) (address value : Word) : Machine :=
  let m := m.set address value
  if value = acknowledgeCommand then
    match Device.ofCommand? address with
    | some d => m.acknowledge d
    | none => m
  else m

/-- The address of a word of a state stored at `address`. -/
def stateAddress (address : Word) (i : Nat) : Word := address + UInt32.ofNat (4 * i)

/-- The state stored at an address. -/
def loadState (m : Machine) (address : Word) : ProcessorState :=
  .ofWords (Table.ofFn fun i => m.read (stateAddress address i))

/-- Store a state at an address, word by word from the lowest. -/
def storeState (m : Machine) (address : Word) (s : ProcessorState) : Machine :=
  (List.range stateWords).foldl (fun m i => m.write (stateAddress address i) (s.word i)) m

/-- Whether a state stored at `address` ends before the end of the address space. -/
def stateFits (address : Word) : Bool := address ≤ 0xffffff77

/-- The state stored at an address, if it ends before the end of the address space. -/
def readState (m : Machine) (address : Word) : Except Abort ProcessorState :=
  if stateFits address then .ok (m.loadState address) else .error .addOverflow

/-- Store a state at an address, if it ends before the end of the address space. -/
def writeState (m : Machine) (address : Word) (s : ProcessorState) : Except Abort Machine :=
  if stateFits address then .ok (m.storeState address s) else .error .addOverflow

/-- The clock, in ticks. -/
def now (m : Machine) : Word := m.read Bus.clock

/-- The clock ticks in a microsecond; a scale of zero counts as one. -/
def timeScale (m : Machine) : Word := max (m.read Bus.timeScale) 1

/-- Let time pass; the clock wraps. -/
def advance (m : Machine) (micros : Word) : Machine :=
  m.write Bus.clock (m.now + micros * m.read Bus.timeScale)

/-- The whole microseconds until the timer runs out. -/
def timerLeft (m : Machine) : Word := m.read Bus.timer / m.timeScale

/-- Append an event to the script. -/
def enqueue (m : Machine) (delay : Word) (event : Event) : Machine :=
  { m with script := m.script ++ [(delay, event)] }

/-- Let the time before the next scripted event pass and take the event. -/
def takeEvent (m : Machine) : Option (Event × Machine) :=
  match m.script with
  | [] => none
  | (delay, event) :: rest => some (event, { m with script := rest }.advance delay)

/-- Set a unit's pending bit; units past the width of a word have none. -/
def raiseBit (m : Machine) (line : Nat) (unit : UInt8) : Except Abort Machine :=
  if unit < 32 then
    .ok (m.write (bitmapOf line) (m.read (bitmapOf line) ||| 1 <<< unit.toUInt32))
  else .error .shiftOverflow

/-- Store the interrupted state with its cause in the old area of a vector. -/
def enterTrap (m : Machine) (vector : TrapVector) (code : ExceptionCode) (s : ProcessorState) :
    TrapVector × Machine :=
  (vector, m.storeState vector.oldArea { s with cause := Cause.withCode s.cause code })

/-- Take an interrupt on a line. -/
def enterInterrupt (m : Machine) (line : Cause.Line) (s : ProcessorState) : TrapVector × Machine :=
  m.enterTrap .interrupt .interrupt { s with cause := Cause.withPending s.cause line }

/-- Let an event happen while `running` is on the processor, nothing while it waits: the vector
that it fires, and the machine with the interrupted state in that vector's old area. -/
def trap (m : Machine) (event : Event) (running : Option ProcessorState) :
    Except Abort (TrapVector × Machine) :=
  let s := { running.getD .zero with cause := 0 }
  match event with
  | .request number a1 a2 a3 fromUser =>
    let s := (((s.setReg .a0 number).setReg .a1 a1).setReg .a2 a2).setReg .a3 a3
    .ok (m.enterTrap .sysBreak .syscall
      { s with status := Status.assign s.status Status.kup fromUser })
  | .breakpoint => .ok (m.enterTrap .sysBreak .breakpoint s)
  | .tlb => .ok (m.enterTrap .tlb .tlbInvalidLoad s)
  | .programTrap code => .ok (m.enterTrap .programTrap code s)
  | .timer => .ok ((m.advance m.timerLeft).enterInterrupt .timer s)
  | .device line unit status => do
    let m := m.write (← registersAt line unit) status
    let m ← m.raiseBit line.toNat unit
    return m.enterInterrupt (← Cause.Line.ofNumber line) s
  | .terminal unit transmitted received => do
    let base := registersOf Cause.Line.terminal unit.toNat
    let m := (transmitted.map (m.write (base + 0x8))).getD m
    let m := (received.map (m.write base)).getD m
    return (← m.raiseBit Cause.Line.terminal unit).enterInterrupt .terminal s
  | .interrupt line => return m.enterInterrupt (← Cause.Line.ofNumber line) s

/-- Load a state and run it until the next scripted event; without one the process exits. -/
def resume (m : Machine) (s : ProcessorState) : Except Abort (TrapVector × Machine) :=
  let m := { m with resumed := m.resumed ++ [s] }
  match m.takeEvent with
  | some (event, m) => m.trap event (some s)
  | none => m.trap .exit (some s)

/-- Wait for the next scripted event; without one the timer runs out. -/
def wait (m : Machine) : Except Abort (TrapVector × Machine) :=
  let m := { m with waitCount := m.waitCount + 1 }
  match m.takeEvent with
  | some (event, m) => m.trap event none
  | none => m.trap .timer none

/-- Stop the machine in good order. -/
def halt (m : Machine) : Machine := { m with halted := true }

/-- Stop the machine because of a fault. -/
def crash (m : Machine) : Machine := { m with crashed := true }

end Machine

end Nucleus
