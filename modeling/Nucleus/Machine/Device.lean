import Nucleus.Processor.Cause

/-!
# Devices

Disks, tapes, network adapters and printers sit on lines 3 to 6, eight units to a line; line 7 has
eight terminals, each a transmitter and a receiver. A device has a status and a command register at
fixed addresses, and each line has a bitmap with a bit for every unit that waits for service.
-/

namespace Nucleus

/-- The families of devices, in the order of the status table; the two halves of the terminals
count as families of their own. -/
inductive DeviceFamily where
  | disk
  | tape
  | network
  | printer
  | terminalTransmit
  | terminalReceive
  deriving DecidableEq

namespace DeviceFamily

/-- The families in order. -/
def all : List DeviceFamily := [disk, tape, network, printer, terminalTransmit, terminalReceive]

/-- The row of a family in the semaphore and status tables. -/
def row : DeviceFamily → Fin 6
  | disk => 0
  | tape => 1
  | network => 2
  | printer => 3
  | terminalTransmit => 4
  | terminalReceive => 5

/-- The interrupt line of a family. -/
def line : DeviceFamily → Cause.Line
  | disk => .disk
  | tape => .tape
  | network => .network
  | printer => .printer
  | terminalTransmit | terminalReceive => .terminal

theorem row_injective {f g : DeviceFamily} (h : f.row = g.row) : f = g := by
  cases f <;> cases g <;> simp_all [row]

/-- Whether a family is half of the terminals. -/
def isTerminal : DeviceFamily → Bool
  | terminalTransmit | terminalReceive => true
  | _ => false

/-- The name of a family. -/
def name : DeviceFamily → String
  | disk => "Disk"
  | tape => "Tape"
  | network => "Network"
  | printer => "Printer"
  | terminalTransmit => "TerminalTransmit"
  | terminalReceive => "TerminalReceive"

/-- The family on a line; `read` picks the half of a terminal. -/
def ofLine? (line : Word) (read : Bool) : Option DeviceFamily :=
  match line.toNat with
  | 3 => some disk
  | 4 => some tape
  | 5 => some network
  | 6 => some printer
  | 7 => some (if read then terminalReceive else terminalTransmit)
  | _ => none

end DeviceFamily

/-- The number of lines with devices. -/
abbrev deviceLines : Nat := 5

/-- The number of units on a line. -/
abbrev unitsPerLine : Nat := 8

/-- The address of the first device register. -/
def firstRegister : Nat := 0x10000050

/-- The address of the first pending bitmap. -/
def firstBitmap : Nat := 0x1000003c

/-- The address of the registers of unit `unit` on line `line`. -/
def registersOf (line unit : Nat) : Word :=
  UInt32.ofNat (firstRegister + (line - 3) * 0x80 + unit * 0x10)

/-- The address of the pending bitmap of line `line`. -/
def bitmapOf (line : Nat) : Word := UInt32.ofNat (firstBitmap + 4 * (line - 3))

/-- The registers of a unit on any line; lines below the first device line have none. -/
def registersAt (line unit : UInt8) : Except Abort Word :=
  if line < 3 then .error .subOverflow else .ok (registersOf line.toNat unit.toNat)

/-- The pending bitmap of any line; lines below the first device line have none. -/
def bitmapAt (line : UInt8) : Except Abort Word :=
  if line < 3 then .error .subOverflow else .ok (bitmapOf line.toNat)

/-- The bit of a unit in the bitmap of its line. -/
def unitBit (unit : Fin unitsPerLine) : Word := 1 <<< UInt32.ofNat unit

/-- The lowest unit whose bit is set; bits past the last unit do not count. -/
def lowestRaised (bitmap : Word) : Option (Fin unitsPerLine) :=
  (List.finRange unitsPerLine).find? fun unit => bitmap &&& unitBit unit ≠ 0

/-- One device; each half of a terminal counts as one. -/
structure Device where
  /-- The family of the device. -/
  family : DeviceFamily
  /-- Its number on the line. -/
  unit : Fin unitsPerLine
  deriving DecidableEq

namespace Device

/-- The device of a family with a given number, if there is one. -/
def ofNumber? (family : DeviceFamily) (unit : Word) : Option Device :=
  if h : unit.toNat < unitsPerLine then some ⟨family, ⟨unit.toNat, h⟩⟩ else none

/-- The number of devices. -/
abbrev count : Nat := 48

/-- The place of a device in the tables, row by row. -/
def place (d : Device) : Fin count :=
  ⟨d.family.row * unitsPerLine + d.unit, by
    have := d.family.row.isLt
    have := d.unit.isLt
    simp only [unitsPerLine, count] at *
    omega⟩

/-- Every device, row by row. -/
def all : List Device :=
  DeviceFamily.all.flatMap fun family => (List.finRange unitsPerLine).map (⟨family, ·⟩)

/-- The address of the status register; a transmitter's lies behind its terminal's receiver. -/
def statusRegister (d : Device) : Word :=
  match d.family with
  | .terminalTransmit => registersOf d.family.line d.unit + 0x8
  | _ => registersOf d.family.line d.unit

/-- The address of the command register. -/
def commandRegister (d : Device) : Word := d.statusRegister + 0x4

/-- The bit of a device in its line's bitmap. -/
def bit (d : Device) : Word := unitBit d.unit

/-- The address of the bitmap that holds a device's bit. -/
def bitmap (d : Device) : Word := bitmapOf d.family.line

/-- The device whose command register is at an address. -/
def ofCommand? (address : Word) : Option Device :=
  all.find? fun d => d.commandRegister = address

theorem place_injective {a b : Device} (h : a.place = b.place) : a = b := by
  obtain ⟨f, u⟩ := a
  obtain ⟨g, v⟩ := b
  have hplace : f.row.val * unitsPerLine + u.val = g.row.val * unitsPerLine + v.val :=
    congrArg Fin.val h
  have hu : u.val < 8 := u.isLt
  have hv : v.val < 8 := v.isLt
  simp only [unitsPerLine] at hplace
  have hrow : f.row = g.row := Fin.ext (by omega)
  have hunit : u = v := Fin.ext (by omega)
  rw [DeviceFamily.row_injective hrow, hunit]

theorem mem_all (d : Device) : d ∈ all := by
  obtain ⟨f, u⟩ := d
  simp only [all, List.mem_flatMap, List.mem_map]
  exact ⟨f, by cases f <;> simp [DeviceFamily.all], u, List.mem_finRange u, rfl⟩

end Device

/-- The command that acknowledges an interrupt. -/
def acknowledgeCommand : Word := 1

/-- The status of a device that is ready for a command. -/
def readyStatus : Word := 1

/-- Whether the status of half a terminal says that a character has been sent or received. -/
def isCompleted (status : Word) : Bool := status &&& 0xff = 5

end Nucleus
