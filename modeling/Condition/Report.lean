/-
The result of a run as it is shown, in text or in JSON.
-/
import Condition.Json.Writer
import Condition.Options
import Condition.Value
import Condition.Variables

namespace Condition

structure Report where
  expression : String
  value : Value
  vars : Variables
  /-- The tree of the expression, if it is shown. -/
  tree : Option String

namespace Report

def result (r : Report) : Bool := r.value.truthy

/-- The tree on a line of its own, if it is shown, and the result on the last line. -/
def text (r : Report) : String :=
  let last := "evaluated result is " ++ Json.writeBool r.result
  match r.tree with
  | some tree => "tree: " ++ tree ++ "\n" ++ last
  | none => last

/-- The fields of the report in JSON, in the order of their names. -/
def fields (r : Report) : List (String × String) :=
  let entries := r.vars.entries.map fun (name, n) => (name, Integer.render n)
  [("expression", Json.quote r.expression), ("result", Json.writeBool r.result)] ++
    (r.tree.map fun tree => ("tree", Json.quote tree)).toList ++
    [("value", r.value.render), ("variables", Json.writeObject 1 entries)]

def json (r : Report) : String := Json.writeObject 0 r.fields

def render (r : Report) : OutputFormat → String
  | .text => r.text
  | .json => r.json

end Report
end Condition
