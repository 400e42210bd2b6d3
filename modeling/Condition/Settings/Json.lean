/-
Settings written in JSON: an object with the fields `schema` and `variables`, or an
array of the two in this order, of which any tail may be left out. Other fields of an
object are passed over; a field given twice is an error, and of a variable given twice
the last value counts.
-/
import Condition.Json.Reader
import Condition.Settings

namespace Condition.Settings

def textOf? : Json.Value → Option String
  | .string text => text
  | _ => none

/-- The integer that a number spells. It has no fraction, no exponent, and is not
minus zero. -/
def integerOf? : Json.Value → Option Int64
  | .number spelling => if spelling = ['-', '0'] then none else Integer.read? 10 spelling
  | _ => none

/-- A variable and its value. -/
def entryOf? (field : Json.Text × Json.Value) : Option (String × Int64) := do
  return (← field.1, ← integerOf? field.2)

def variablesOf? : Json.Value → Option Variables
  | .object fields => (fields.mapM entryOf?).map Variables.ofList
  | _ => none

/-- Takes over one field of an object. -/
def addJsonField (f : Fields) (field : Json.Text × Json.Value) : Option Fields := do
  let name ← field.1
  if name = "schema" then f.addSchema (← textOf? field.2)
  else if name = "variables" then f.addVariables (← variablesOf? field.2)
  else return f

/-- The settings that a JSON text writes. -/
def ofJson? (text : String) : Option Settings := do
  match ← Json.read text with
  | .object fields => return (← fields.foldlM addJsonField .none).complete
  | .array [] => return empty
  | .array [schema] => return ⟨← textOf? schema, .empty⟩
  | .array [schema, vars] => return ⟨← textOf? schema, ← variablesOf? vars⟩
  | _ => none

end Condition.Settings
