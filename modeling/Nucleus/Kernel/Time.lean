import Nucleus.Kernel.Basic

/-!
# Time keeping

Times are microseconds derived from the clock. Clock readings are kept as raw ticks and only
intervals are scaled, so what is left of a microsecond carries over into the next interval and a
wrap of the clock costs nothing.
-/

namespace Nucleus

/-- The whole microseconds from `since` to `now`, and the reading up to which they are accounted
for. -/
def elapsed (now since scale : Word) : Word × Word :=
  let micros := (now - since) / scale
  (micros, since + micros * scale)

namespace Kernel

/-- Charge the time since the last charge to the running process. If none runs, nobody is charged. -/
def charge (k : Kernel) : Kernel :=
  match k.current with
  | none => { k with chargedUntil := k.machine.now }
  | some h =>
    let (micros, chargedUntil) := elapsed k.machine.now k.chargedUntil k.machine.timeScale
    { k with chargedUntil }.modify h (·.charge micros)

/-- Add the time since the last update to the time gathered for the pseudo-clock. -/
def gatherTick (k : Kernel) : Kernel :=
  let (micros, tickUntil) := elapsed k.machine.now k.tickUntil k.machine.timeScale
  { k with tickUntil, tickMicros := Word.saturatingAdd k.tickMicros micros }

/-- The time until the next tick is due. -/
def untilTick (k : Kernel) : Word := Word.saturatingSub k.config.tickInterval k.tickMicros

/-- Whether a tick is due. -/
def tickIsDue (k : Kernel) : Bool := k.config.tickInterval ≤ k.tickMicros

/-- Set the interval timer. -/
def setTimer (k : Kernel) (micros : Word) : Kernel :=
  k.writeWord Bus.timer (Word.saturatingMul micros k.machine.timeScale)

end Kernel

end Nucleus
