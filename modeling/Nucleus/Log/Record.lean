/-!
# Log records

A record has a level, the area it comes from and a text. A console shows a record as one line
`[LEVEL] target: text` and drops every record above the most detailed level it lets through.
-/

namespace Nucleus

/-- The levels of a record, from the gravest to the most detailed. -/
inductive Level where
  | error
  | warn
  | info
  | debug
  | trace
  deriving DecidableEq

namespace Level

/-- How detailed a level is. -/
def detail : Level → Nat
  | error => 1
  | warn => 2
  | info => 3
  | debug => 4
  | trace => 5

/-- The name of a level, filled with blanks to five characters. -/
def label : Level → String
  | error => "ERROR"
  | warn => "WARN "
  | info => "INFO "
  | debug => "DEBUG"
  | trace => "TRACE"

/-- Whether a console limited to `limit` shows records of this level; without a limit it is off. -/
def shownAt (limit : Option Level) (level : Level) : Bool :=
  match limit with
  | none => false
  | some most => level.detail ≤ most.detail

end Level

/-- One log record. -/
structure Record where
  /-- How grave it is. -/
  level : Level
  /-- The area it comes from. -/
  target : String
  /-- What it says. -/
  text : String

/-- The line that shows a record. -/
def Record.line (r : Record) : String :=
  "[" ++ r.level.label ++ "] " ++ r.target ++ ": " ++ r.text

/-- The text of a list of records, a line each. -/
def Record.textOf (records : List Record) : String :=
  String.join (records.map fun r => r.line ++ "\n")

/-- A console that is fitted once and lets records through up to a level. -/
structure Console where
  /-- Whether a console has been fitted. -/
  fitted : Bool
  /-- The most detailed level shown; off if there is none. -/
  limit : Option Level

namespace Console

/-- Nothing fitted, nothing shown. -/
def absent : Console := ⟨false, none⟩

/-- Fit a console that shows records up to `limit`. The first one stays: later attempts fail and
leave its level alone. -/
def fit (c : Console) (limit : Option Level) : Bool × Console :=
  if c.fitted then (false, c) else (true, ⟨true, limit⟩)

/-- The records that the console shows. -/
def shown (c : Console) (records : List Record) : List Record :=
  if c.fitted then records.filter fun r => r.level.shownAt c.limit else []

end Console

end Nucleus
