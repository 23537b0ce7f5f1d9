import Nucleus.Word

/-!
# Configuration

What a board may choose. Times are in microseconds.
-/

namespace Nucleus

/-- The parameters of the nucleus. -/
structure Config where
  /-- How long a process runs before another ready process gets its turn. -/
  quantum : Word
  /-- The time between two ticks of the pseudo-clock. -/
  tickInterval : Word
  /-- The entry point of the root process. -/
  rootEntry : Word
  deriving DecidableEq

namespace Config

/-- The usual quantum. -/
def usualQuantum : Word := 5000

/-- The usual tick. -/
def usualTick : Word := 100000

/-- The usual times, and a root process that starts at `rootEntry`. -/
def ofEntry (rootEntry : Word) : Config := ⟨usualQuantum, usualTick, rootEntry⟩

/-- The configuration for a root process that starts at zero. -/
def usual : Config := ofEntry 0

/-- Whether a quantum is longer than the time between two ticks. -/
def quantumExceedsTick (c : Config) : Bool := c.tickInterval < c.quantum

end Config

end Nucleus
