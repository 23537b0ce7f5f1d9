import Nucleus.Machine.Basic
import Nucleus.Semaphore.Id

/-!
# Semaphore values

The values of the device semaphores and of the pseudo-clock belong to the nucleus; the value of a
user semaphore is the signed word at its address. Beside them stands the latest status of each
device that completed while nobody waited for it.
-/

namespace Nucleus

/-- The semaphore values that belong to the nucleus, and the latched statuses. -/
structure SemaphoreValues where
  /-- The value of each device semaphore. -/
  devices : Table Device.count Count
  /-- The value of the pseudo-clock. -/
  clock : Count
  /-- The latched status of each device. -/
  statuses : Table Device.count Word
  deriving DecidableEq

namespace SemaphoreValues

/-- Every value zero and no status latched. -/
def zero : SemaphoreValues where
  devices := Table.fill Device.count 0
  clock := 0
  statuses := Table.fill Device.count 0

/-- The value of a semaphore. -/
def value (v : SemaphoreValues) (m : Machine) : SemaphoreId → Count
  | .device d => v.devices.get d.place
  | .clock => v.clock
  | .user address => (m.read address).toInt32

/-- Add `delta` to a semaphore; the value stops at the bounds of a signed word. -/
def add (v : SemaphoreValues) (m : Machine) (id : SemaphoreId) (delta : Count) :
    SemaphoreValues × Machine :=
  let sum := Count.saturatingAdd (v.value m id) delta
  match id with
  | .device d => ({ v with devices := v.devices.set d.place sum }, m)
  | .clock => ({ v with clock := sum }, m)
  | .user address => (v, m.write address sum.toUInt32)

/-- Remember the status of a completion that nobody waited for. -/
def latch (v : SemaphoreValues) (d : Device) (status : Word) : SemaphoreValues :=
  { v with statuses := v.statuses.set d.place status }

/-- The status latched for a device. -/
def latched (v : SemaphoreValues) (d : Device) : Word := v.statuses.get d.place

theorem latched_latch (v : SemaphoreValues) (d e : Device) (status : Word) :
    (v.latch d status).latched e = if d = e then status else v.latched e := by
  by_cases h : d = e
  · simp [latch, latched, h]
  · have hne : d.place ≠ e.place := fun hp => h (Device.place_injective hp)
    simp [latch, latched, h, hne]

end SemaphoreValues

end Nucleus
