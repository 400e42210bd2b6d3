/-
The log of the program's calls: which records a call leaves, in order. A parser
leaves one for each token it scans; parsing, evaluating, loading settings and a run
each leave one when they succeed.
-/
import Condition.Log
import Condition.Memo
import Condition.Run

namespace Condition.Journal

/-- A record for each token scanned. -/
def ofScanned (tokens : Array Token) : List Record :=
  tokens.toList.map fun t =>
    ⟨.trace, "bexpr_eval::parser", "scanned " ++ t.render ++ " at " ++ toString t.pos⟩

def parsed (input : String) (tree : Node) : Record :=
  ⟨.debug, "bexpr_eval::parser", "parsed `" ++ input ++ "` as " ++ tree.render⟩

def evaluated (expression : String) (value : Value) : Record :=
  ⟨.debug, "bexpr_eval::evaluator", "evaluated `" ++ expression ++ "` to " ++ value.render⟩

def loaded (path : String) (settings : Settings) : Record :=
  ⟨.debug, "bexpr_runner::config",
    "loaded " ++ toString settings.vars.size ++ " variable(s) from `" ++ path ++ "`"⟩

def reported (report : Report) : Record :=
  ⟨.debug, "bexpr_runner::run",
    "`" ++ report.expression ++ "` evaluated to " ++ report.value.render ++ " (" ++
      Json.writeBool report.result ++ ")"⟩

/-- The tokens scanned in order to read the expression at the start of the input. -/
def scan (input : String) : List Record :=
  match Parser.ofString input with
  | .error _ => []
  | .ok p => ofScanned (p.parse 0).2.scanned

def parseExpression (input : String) : List Record :=
  scan input ++ ((Condition.parseExpression input).toOption.map (parsed input)).toList

def evaluateValue (expression : String) (vars : Variables) : List Record :=
  parseExpression expression ++
    ((Condition.evaluateValue expression vars).toOption.map (evaluated expression)).toList

/-- An expression that is kept is not parsed again. -/
def memo (m : Memo) (expression : String) : List Record :=
  if (m.find? expression).isSome then [] else parseExpression expression

def load (w : Workspace) (path : String) : List Record :=
  ((Settings.load w path).toOption.map (loaded path)).toList

def resolveVariables (w : Workspace) (config : Option String) : List Record :=
  match config with
  | some path => load w path
  | none => []

def execute (w : Workspace) (o : Options) : List Record :=
  if Run.isBlankInput o.input then []
  else
    resolveVariables w o.config ++
      match Run.resolveVariables w o.config o.assignments with
      | .error _ => []
      | .ok _ => scan o.input ++ ((Run.report w o).toOption.map reported).toList

/-- The lines of the records that a filter admits. -/
def lines (filter : Filter) (records : List Record) : List String :=
  (records.filter (filter.admits ·.level)).map Record.line

end Condition.Journal
