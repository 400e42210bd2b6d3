/-
Variables given as text: entries of the form `NAME=VALUE`, separated by commas,
with any white space around entries, names and values. Blank entries are skipped,
and the last entry of a name counts.
-/
import Condition.Text
import Condition.Unicode.WhiteSpace
import Condition.Variables
import Condition.Variables.Name
import Condition.Integer

namespace Condition.Variables

/-- Reads one entry, which has no white space at its ends. -/
def parseEntry (entry : List Char) : Except AssignmentError (String × Int64) :=
  match Text.cut? '=' entry with
  | none => .error (.missingSeparator (String.ofList entry))
  | some (before, after) => do
    let name := String.ofList (Unicode.trim before)
    let value := String.ofList (Unicode.trim after)
    checkName name
    match Integer.readDecimal? value with
    | some n => return (name, n)
    | none => throw (.invalidValue name value)

/-- The entries that are not blank. -/
def splitEntries (raw : List Char) : List (List Char) :=
  ((Text.split ',' raw).map Unicode.trim).filter (!·.isEmpty)

/-- The entries in order, or the first error. -/
def parseEntries : List (List Char) → Except AssignmentError (List (String × Int64))
  | [] => .ok []
  | e :: es => do return (← parseEntry e) :: (← parseEntries es)

/-- The variables that the text assigns. -/
def parseAssignments (raw : String) : Except AssignmentError Variables :=
  (parseEntries (splitEntries raw.toList)).map ofList

end Condition.Variables
