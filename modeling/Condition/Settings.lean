/-
Settings that a file gives: the version of its form, and variables. The form is
checked only here, so a file that is well formed may still be refused, with all its
issues at once.
-/
import Condition.Variables
import Condition.Variables.Name

namespace Condition

/-- The version of the form that a settings file has. -/
def currentSchema : String := "bexpr-runner/0.0.1"

structure Settings where
  schema : String
  vars : Variables

namespace Settings

/-- The settings of an empty file. -/
def empty : Settings := ⟨currentSchema, .empty⟩

/-- The issue with the version, if there is one. -/
def schemaIssues (schema : String) : List String :=
  if schema = currentSchema then []
  else ["unsupported runner config schema `" ++ schema ++ "` (expected `" ++ currentSchema ++ "`)"]

/-- The issue with a name, if there is one. -/
def nameIssues (name : String) : List String :=
  match Variables.checkName name with
  | .ok () => []
  | .error e => ["variables." ++ name ++ ": " ++ e.message]

/-- All that is wrong with the settings: the version first, then the names in their order. -/
def issues (s : Settings) : List String :=
  schemaIssues s.schema ++ s.vars.names.flatMap nameIssues

/-! ## Fields in the order of a file -/

/-- The fields read so far from a file, each at most once. -/
structure Fields where
  schema : Option String
  vars : Option Variables

def Fields.none : Fields := ⟨.none, .none⟩

def Fields.addSchema (f : Fields) (schema : String) : Option Fields :=
  if f.schema.isSome then .none else some { f with schema := some schema }

def Fields.addVariables (f : Fields) (vars : Variables) : Option Fields :=
  if f.vars.isSome then .none else some { f with vars := some vars }

/-- The settings with these fields, and the usual ones in place of those missing. -/
def Fields.complete (f : Fields) : Settings :=
  ⟨f.schema.getD currentSchema, f.vars.getD .empty⟩

end Settings
end Condition
