/-
The program as a whole, from its arguments to its output: what it writes and the code
it ends with, for any workspace.
-/
import Condition.CommandLine
import Condition.Journal

namespace Condition

/-- What a run of the program leaves. -/
structure Transcript where
  code : Nat
  output : String
  /-- The log, and behind it the message of the error, if there was one. -/
  errors : String
deriving DecidableEq, Repr

namespace Program

/-- Lines of text, each with its line feed. -/
def block (lines : List String) : String := String.join (lines.map (· ++ "\n"))

/-- Runs with these options. -/
def runWith (w : Workspace) (o : Options) : Transcript :=
  let log := Journal.lines (.ofVerbosity o.verbosity) (Journal.execute w o)
  match Run.execute w o with
  | .ok output => ⟨0, block [output], block log⟩
  | .error e => ⟨1, "", block (log ++ [e.message])⟩

/-- Runs with these arguments. -/
def run (w : Workspace) (args : List String) : Except UsageError Transcript :=
  (CommandLine.parse args).map (runWith w)

end Program
end Condition
