/-
What a run of the program is asked to do.
-/

namespace Condition

/-- How the result is shown. -/
inductive OutputFormat
  | text
  | json
deriving DecidableEq, Repr

structure Options where
  /-- The expression. -/
  input : String
  /-- Variables as text, which win over those of the settings file. -/
  assignments : String
  /-- The path of a settings file. -/
  config : Option String
  /-- Whether the whole input must be one expression. -/
  strict : Bool
  /-- Whether the tree of the expression is shown too. -/
  tree : Bool
  /-- How often more log records were asked for. -/
  verbosity : Nat
  format : OutputFormat
deriving DecidableEq, Repr

end Condition
