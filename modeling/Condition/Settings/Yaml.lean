/-
Settings written in YAML: a mapping with the fields `schema` and `variables`, or
nothing at all. Other fields are passed over; a field given twice is an error, and of
a variable given twice the last value counts. Aliases stand for the nodes they name.
-/
import Condition.Settings
import Condition.Yaml.Node
import Condition.Yaml.Number

namespace Condition.Settings

open Yaml (Document)

/-- The text of a scalar of any style. -/
def scalarText? (d : Document) (n : Yaml.Node) : Option String :=
  match d.resolve? n with
  | some (.scalar _ _ text) => some text
  | _ => none

/-- The integer of a plain scalar, or of a literal block whose tag says that it is one. -/
def scalarInteger? (d : Document) (n : Yaml.Node) : Option Int64 :=
  match d.resolve? n with
  | some (.scalar .plain _ text) => Yaml.integer? text
  | some (.scalar .literal tag text) =>
    if tag = some "tag:yaml.org,2002:int" then Yaml.integer? text else none
  | _ => none

/-- The entries of a mapping; a plain scalar without text has none. -/
def entriesOf? (d : Document) (n : Yaml.Node) : Option (List (Yaml.Node × Yaml.Node)) :=
  match d.resolve? n with
  | some (.mapping entries) => some entries
  | some (.scalar .plain _ "") => some []
  | _ => none

def mappingVariables? (d : Document) (n : Yaml.Node) : Option Variables := do
  let entries ← entriesOf? d n
  let values ← entries.mapM fun (name, value) => do
    return (← scalarText? d name, ← scalarInteger? d value)
  return Variables.ofList values

/-- Takes over one field of the mapping. -/
def addYamlField (d : Document) (f : Fields) (field : Yaml.Node × Yaml.Node) : Option Fields := do
  let name ← scalarText? d field.1
  if name = "schema" then f.addSchema (← scalarText? d field.2)
  else if name = "variables" then f.addVariables (← mappingVariables? d field.2)
  else return f

/-- The settings that a YAML text writes. -/
def ofYaml? (text : String) : Option Settings := do
  match ← Document.read text with
  | none => return empty
  | some d => return (← (← entriesOf? d d.root).foldlM (addYamlField d) .none).complete

end Condition.Settings
