/-
The command line program: reads the settings file and the environment that a run
needs, runs, and writes what the run leaves.
-/
import Condition.Program

namespace Condition.Main

/-- The cause of a failed read. -/
def failureOf (e : IO.Error) : ReadFailure :=
  match e with
  | .noFileOrDirectory .. => .notFound
  | .inappropriateType _ code _ => if code = 21 then .isDirectory else .notDirectory
  | e => .other (toString e)

/-- The text of a file. -/
def readText (path : String) : IO (Except ReadFailure String) := do
  if path = "" then return .error .notFound
  try
    match String.fromUTF8? (← IO.FS.readBinFile path) with
    | some text => return .ok text
    | none => return .error .notText
  catch e => return .error (failureOf e)

/-- The values of those names that the environment sets. -/
def environment (names : List String) : IO Environment := do
  let values ← names.filterMapM fun name => do
    return (← IO.getEnv name).map fun value => (name, value)
  return fun name => values.lookup name

/-- The surroundings of a run with this settings file. -/
def workspace (config : Option String) : IO Workspace := do
  match config with
  | none => return ⟨fun _ => .error .notFound, fun _ => none⟩
  | some path =>
    let content ← readText path
    let names := match content with
      | .ok text => Placeholder.namesIn text.toList
      | .error _ => []
    return ⟨fun _ => content, ← environment names⟩

def help : String :=
  "\n".intercalate [
    "Evaluate a boolean/arithmetic expression against integer variables",
    "",
    "Usage: bexpr [OPTIONS] --input <INPUT>",
    "",
    "Options:",
    "  -i, --input <INPUT>          Expression to evaluate",
    "  -V, --variables <VARIABLES>  Comma separated NAME=VALUE pairs",
    "      --config <CONFIG>        YAML or JSON file with a variables map",
    "      --strict                 Fail when tokens remain after a complete expression",
    "      --tree                   Also print the parse tree",
    "      --verbose                Log to stderr; repeat for trace output",
    "      --format <FORMAT>        text or json",
    "  -h, --help                   Print help",
    ""]

def describe : UsageError → String
  | .unknownArgument => "error: unexpected argument found"
  | .missingRequiredArgument => "error: the argument --input <INPUT> was not provided"
  | .invalidValue => "error: an option has a value that is missing or not valid"
  | .tooManyValues => "error: an option that takes no value was given one"
  | .argumentConflict => "error: an option cannot be used more than once"
  | .displayHelp => ""

end Condition.Main

open Condition in
/-- Runs the program and gives its exit code. -/
def main (args : List String) : IO UInt32 := do
  match CommandLine.parse args with
  | .error .displayHelp =>
    IO.print Main.help
    return 0
  | .error e =>
    IO.eprintln (Main.describe e)
    return e.code.toUInt32
  | .ok o =>
    let t := Program.runWith (← Main.workspace o.config) o
    IO.print t.output
    IO.eprint t.errors
    return t.code.toUInt32
