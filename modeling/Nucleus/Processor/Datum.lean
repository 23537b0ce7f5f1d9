import Nucleus.Processor.State

/-!
# Processor states as plain data

The form in which a state is exchanged with other programs: a record of its seven fields, the
general registers as a list. Reading also accepts the bare list of the seven values. A field more
than these is ignored; a missing field, a number that is no word, and a list of the wrong length
are refused.
-/

namespace Nucleus

/-- Plain data. -/
inductive Datum where
  | null
  | boolean (value : Bool)
  | integer (value : Int)
  /-- A number that is not written as an integer. -/
  | fraction
  | text (value : String)
  | list (items : List Datum)
  | record (fields : List (String × Datum))
  deriving Inhabited

namespace Datum

/-- A word as data. -/
def ofWord (w : Word) : Datum := .integer w.toNat

/-- The word that a datum is. -/
def word? : Datum → Option Word
  | .integer n => if 0 ≤ n ∧ n < UInt32.size then some (UInt32.ofNat n.toNat) else none
  | _ => none

/-- The general registers that a datum is. -/
def registers? : Datum → Option (Table registerCount Word)
  | .list items => do Table.ofList? registerCount (← items.mapM word?)
  | _ => none

end Datum

namespace ProcessorState

/-- A state as a record of its fields. -/
def toDatum (s : ProcessorState) : Datum :=
  .record
    [("entry_hi", .ofWord s.entryHi), ("cause", .ofWord s.cause), ("status", .ofWord s.status),
     ("pc", .ofWord s.pc), ("gpr", .list (s.gpr.toList.map .ofWord)), ("hi", .ofWord s.hi),
     ("lo", .ofWord s.lo)]

/-- The state whose fields, in the order of the layout, are the given data. -/
def ofFields? (entryHi cause status pc gpr hi lo : Datum) : Option ProcessorState :=
  return ⟨← entryHi.word?, ← cause.word?, ← status.word?, ← pc.word?, ← gpr.registers?,
    ← hi.word?, ← lo.word?⟩

/-- The state that a datum is. -/
def ofDatum? : Datum → Option ProcessorState
  | .record fields => do
    ofFields? (← fields.lookup "entry_hi") (← fields.lookup "cause") (← fields.lookup "status")
      (← fields.lookup "pc") (← fields.lookup "gpr") (← fields.lookup "hi") (← fields.lookup "lo")
  | .list [entryHi, cause, status, pc, gpr, hi, lo] => ofFields? entryHi cause status pc gpr hi lo
  | _ => none

end ProcessorState

end Nucleus
