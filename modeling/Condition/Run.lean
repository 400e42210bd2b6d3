/-
A run of the program: find the variables, parse and evaluate the expression, and
report. The first of these that fails decides the error.
-/
import Condition.Evaluation
import Condition.Report
import Condition.Settings.Load
import Condition.Unicode.WhiteSpace
import Condition.Variables.Assignments

namespace Condition

inductive RunError
  | missingInput
  | assignments (e : AssignmentError)
  | settings (e : SettingsError)
  | parse (e : ParseError)
  | evaluation (e : EvalError)
deriving DecidableEq

def RunError.message : RunError → String
  | missingInput => "missing required --input expression"
  | assignments e => "invalid --variables: " ++ e.message
  | settings e => e.message
  | parse e => "parse error: " ++ e.message
  | evaluation e => "evaluation error: " ++ e.message

namespace Run

/-- The variables of the settings file, if one is given. -/
def settingsVariables (w : Workspace) : Option String → Except RunError Variables
  | none => .ok .empty
  | some path => ((Settings.load w path).map Settings.vars).mapError RunError.settings

/-- The variables of the settings file, overridden by those assigned. -/
def resolveVariables (w : Workspace) (config : Option String) (assignments : String) :
    Except RunError Variables := do
  let first ← settingsVariables w config
  let second ← (Variables.parseAssignments assignments).mapError RunError.assignments
  return first.union second

/-- The tree of the input. With `strict`, nothing may stand behind the expression. -/
def parseInput (input : String) (strict : Bool) : Except ParseError Node :=
  match Parser.ofString input with
  | .error e => .error (.lex e)
  | .ok p =>
    match p.parse 0 with
    | (.error e, _) => .error e
    | (.ok tree, p') => if strict then p'.expectEnd.map fun () => tree else .ok tree

/-- Whether there is nothing but white space. -/
def isBlankInput (input : String) : Bool := (Unicode.trim input.toList).isEmpty

/-- The report of a run. -/
def report (w : Workspace) (o : Options) : Except RunError Report := do
  if isBlankInput o.input then throw .missingInput
  let vars ← resolveVariables w o.config o.assignments
  let tree ← (parseInput o.input o.strict).mapError RunError.parse
  let value ← (tree.evaluate vars).mapError RunError.evaluation
  return ⟨o.input, value, vars, if o.tree then some tree.render else none⟩

/-- What a run shows. -/
def execute (w : Workspace) (o : Options) : Except RunError String :=
  (report w o).map (·.render o.format)

end Run
end Condition
