import Nucleus.Machine.Device

/-!
# Semaphore identities

What identifies a semaphore, and the total order on identities: devices by family and number, then
the pseudo-clock, then user semaphores by address.
-/

namespace Nucleus

/-- The identity of a semaphore. -/
inductive SemaphoreId where
  /-- The semaphore of a device. -/
  | device (d : Device)
  /-- The pseudo-clock. -/
  | clock
  /-- A word of memory. -/
  | user (address : Word)
  deriving DecidableEq

namespace SemaphoreId

/-- The place of an identity in their order. -/
def rank : SemaphoreId → Nat
  | device d => d.place
  | clock => Device.count
  | user address => Device.count + 1 + address.toNat

theorem rank_injective {a b : SemaphoreId} (h : a.rank = b.rank) : a = b := by
  cases a <;> cases b <;> simp only [rank] at h
  case device.device => rw [Device.place_injective (Fin.ext h)]
  case clock.clock => rfl
  case user.user => rw [UInt32.toNat_inj.1 (Nat.add_left_cancel h)]
  case device.clock d => exact absurd h (Nat.ne_of_lt d.place.isLt)
  case clock.device d => exact absurd h.symm (Nat.ne_of_lt d.place.isLt)
  case device.user d _ => have := d.place.isLt; omega
  case user.device d => have := d.place.isLt; omega
  all_goals omega

/-- A list of identities in ascending order. -/
def sort (ids : List SemaphoreId) : List SemaphoreId := ids.mergeSort fun a b => a.rank ≤ b.rank

/-- An identity spelled out. -/
def describe : SemaphoreId → String
  | device d =>
    "Device(DeviceKey \x7b class: " ++ d.family.name ++ ", device: " ++ toString d.unit.val ++
      " \x7d)"
  | clock => "PseudoClock"
  | user address => "User(" ++ toString address ++ ")"

end SemaphoreId

end Nucleus
