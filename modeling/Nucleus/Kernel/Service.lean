import Nucleus.Kernel.Family
import Nucleus.Kernel.Decision

/-!
# Services

The services that a process in kernel mode requests by number, with its arguments in registers.
A result goes into the saved state of the caller.
-/

namespace Nucleus

/-- A request for a service. -/
inductive Service where
  /-- Create a child with the state stored at an address. -/
  | create (stateAddress : Word)
  /-- Terminate a process; the word of all ones means the caller. -/
  | terminate (pid : Pid)
  /-- Give a unit to a user semaphore. -/
  | signal (address : Word)
  /-- Take a unit from a user semaphore. -/
  | wait (address : Word)
  /-- The pid of the caller. -/
  | pid
  /-- The processor time of the caller. -/
  | usedTime
  /-- Wait for the next tick of the pseudo-clock. -/
  | waitClock
  /-- Wait for a unit of a line to complete; `read` picks the receiver of a terminal. -/
  | waitDevice (line unit : Word) (read : Bool)
  /-- The pid of the caller's parent. -/
  | parentPid
  /-- Announce a handler of the caller for a class of its exceptions. -/
  | announce (c : ExceptionClass) (handler : Handler)
  deriving DecidableEq

namespace Service

/-- The greatest number of a service. -/
def last : Word := 12

/-- Whether a number belongs to the nucleus. -/
def isReserved (number : Word) : Bool := 1 ≤ number && number ≤ last

/-- The service with a given number, with its arguments. -/
def ofRequest? (number a1 a2 a3 : Word) : Option Service :=
  match number.toNat with
  | 1 => some (.create a1)
  | 2 => some (.terminate a1)
  | 3 => some (.signal a1)
  | 4 => some (.wait a1)
  | 5 => some .pid
  | 6 => some .usedTime
  | 7 => some .waitClock
  | 8 => some (.waitDevice a1 a2 (a3 ≠ 0))
  | 9 => some .parentPid
  | 10 => some (.announce .tlb ⟨a1, a2⟩)
  | 11 => some (.announce .programTrap ⟨a1, a2⟩)
  | 12 => some (.announce .sysBreak ⟨a1, a2⟩)
  | _ => none

/-- The service that a trapped process requests. -/
def ofTrap? (trap : ProcessorState) : Option Service :=
  ofRequest? trap.a0 trap.a1 trap.a2 trap.a3

/-- The result of a service that cannot be given. -/
def failure : Word := Word.allOnes

end Service

namespace Kernel

/-- Create a child of `caller`: the result is its pid, or failure if no descriptor is free. -/
def serveCreate (caller : Slot) (stateAddress : Word) : Action Kernel Unit := do
  let state ← Action.check ((← Action.look machine).readState stateAddress)
  match ← create state (some caller) with
  | some child => Action.change fun k => k.giveResult caller (k.pidAt child)
  | none =>
    Action.note .poolExhausted
    Action.change (·.giveResult caller Service.failure)

/-- Terminate a process on behalf of `caller`, which gets a result if it survives. -/
def serveTerminate (caller : Slot) (pid : Pid) : Action Kernel Unit := do
  let own ← Action.look (·.pidAt caller)
  let found ← terminate (if pid = Word.allOnes then own else pid)
  Action.change fun k =>
    if k.current = some caller then k.giveResult caller (if found then 0 else Service.failure)
    else k

/-- Give a unit to a semaphore and release its oldest waiter. -/
def signal (id : SemaphoreId) : Action Kernel Unit := do
  Action.change (·.add id 1)
  discard (wakeNext id)

/-- Take a unit from a semaphore; the running process blocks if there was none. The answer is
whether it went on. -/
def acquire (id : SemaphoreId) (wait : WaitKind) : Action Kernel Bool := do
  Action.change (·.add id (-1))
  if (← Action.look (·.value id)) < 0 then
    suspend id wait
    return false
  return true

/-- Wait for a device: a completion that came first hands over its latched status at once. -/
def awaitDevice (caller : Slot) (line unit : Word) (read : Bool) : Action Kernel Unit := do
  match (DeviceFamily.ofLine? line read).bind (Device.ofNumber? · unit) with
  | none => Action.fail (.invalidDevice line unit)
  | some d =>
    if ← acquire (.device d) .device then
      Action.change fun k => k.giveResult caller (k.latched d)

/-- Take down a handler for a class of exceptions. The second announcement for a class terminates
the caller. -/
def announceHandler (caller : Slot) (c : ExceptionClass) (handler : Handler) :
    Action Kernel Unit := do
  let d ← Action.look (·.processes.get caller)
  let announced ← Action.check (Word.succ (d.announced.get c.place))
  Action.change (·.modify caller fun d =>
    { d with announced := d.announced.set c.place announced })
  if 1 < announced then
    Action.note (.secondHandler d.pid c)
    discard (terminate d.pid)
  else
    Action.change (·.modify caller fun d =>
      { d with handlers := d.handlers.set c.place (some handler) })

/-- Give a service to `caller`. -/
def serve (caller : Slot) : Service → Action Kernel Unit
  | .create stateAddress => serveCreate caller stateAddress
  | .terminate pid => serveTerminate caller pid
  | .signal address => signal (.user address)
  | .wait address => discard (acquire (.user address) .semaphore)
  | .pid => Action.change fun k => k.giveResult caller (k.pidAt caller)
  | .usedTime => do
    Action.change charge
    Action.change fun k => k.giveResult caller (k.processes.get caller).usedTime
  | .waitClock => discard (acquire .clock .clock)
  | .waitDevice line unit read => awaitDevice caller line unit read
  | .parentPid => Action.change fun k =>
    k.giveResult caller (((k.processes.get caller).parent.map k.pidAt).getD Service.failure)
  | .announce c handler => announceHandler caller c handler

end Kernel

end Nucleus
