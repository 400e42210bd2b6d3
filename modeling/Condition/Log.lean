/-
Log records, the levels they have, and which of them are shown.
-/

namespace Condition

/-- The severity of a record. -/
inductive Level
  | error | warn | info | debug | trace
deriving DecidableEq, Repr

/-- The least severe level that is shown, if any is. -/
inductive Filter
  | off
  | upTo (level : Level)
deriving DecidableEq, Repr

/-- Levels in order, the most severe first. -/
def Level.rank : Level → Nat
  | error => 1
  | warn => 2
  | info => 3
  | debug => 4
  | trace => 5

def Level.name : Level → String
  | error => "ERROR"
  | warn => "WARN"
  | info => "INFO"
  | debug => "DEBUG"
  | trace => "TRACE"

namespace Filter

def rank : Filter → Nat
  | off => 0
  | upTo level => level.rank

def name : Filter → String
  | off => "OFF"
  | upTo level => level.name

/-- Whether records of this level are shown. -/
def admits (f : Filter) (level : Level) : Bool := level.rank ≤ f.rank

/-- What is shown when the user asks so many times for more. -/
def ofVerbosity : Nat → Filter
  | 0 => upTo .warn
  | 1 => upTo .debug
  | _ => upTo .trace

end Filter

/-- A message, its level, and the part of the program it comes from. -/
structure Record where
  level : Level
  target : String
  message : String
deriving DecidableEq, Repr

/-- The record as a line of the log. -/
def Record.line (r : Record) : String :=
  "[" ++ r.level.name ++ "] " ++ r.target ++ ": " ++ r.message

end Condition
