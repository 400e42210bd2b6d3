/-
Reading the command line.

An option takes its value from the same argument (`--input=x`, `-ix`, `-i=x`) or from
the next one, provided that it does not look like an option itself. An option whose
value has not been taken in yet is pending: it is settled when the next option comes
or the arguments end, so a fault in it shows only then, and an argument that means
nothing is reported before it.
-/
import Condition.Options

namespace Condition

/-- Why arguments are not run. -/
inductive UsageError
  | unknownArgument
  | missingRequiredArgument
  | invalidValue
  | tooManyValues
  | argumentConflict
  /-- The help text was asked for, which is no failure. -/
  | displayHelp
deriving DecidableEq, Repr

/-- The exit code of the program. -/
def UsageError.code : UsageError → Nat
  | displayHelp => 0
  | _ => 2

namespace CommandLine

/-- The options that take a value. -/
inductive Valued
  | input
  | assignments
  | config
  | format
deriving DecidableEq, Repr

/-- The options that take none. -/
inductive Switch
  | strict
  | tree
  | verbose
  | help
deriving DecidableEq, Repr

def long? (name : List Char) : Option (Valued ⊕ Switch) :=
  match String.ofList name with
  | "input" => some (.inl .input)
  | "variables" => some (.inl .assignments)
  | "config" => some (.inl .config)
  | "format" => some (.inl .format)
  | "strict" => some (.inr .strict)
  | "tree" => some (.inr .tree)
  | "verbose" => some (.inr .verbose)
  | "help" => some (.inr .help)
  | _ => none

def short? : Char → Option (Valued ⊕ Switch)
  | 'i' => some (.inl .input)
  | 'V' => some (.inl .assignments)
  | 'h' => some (.inr .help)
  | _ => none

/-- What the arguments so far say, and the option that waits to be settled. -/
structure Draft where
  input : Option String
  assignments : Option String
  config : Option String
  format : Option OutputFormat
  strict : Bool
  tree : Bool
  verbosity : Nat
  pending : Option (Valued × Option String)

namespace Draft

def empty : Draft := ⟨none, none, none, none, false, false, 0, none⟩

def isSet (d : Draft) : Valued → Bool
  | .input => d.input.isSome
  | .assignments => d.assignments.isSome
  | .config => d.config.isSome
  | .format => d.format.isSome

/-- Takes in the value of an option, which may be given only once. -/
def setValue (d : Draft) (o : Valued) (value : Option String) : Except UsageError Draft :=
  match value with
  | none => .error .invalidValue
  | some v =>
    if d.isSet o then .error .argumentConflict
    else match o with
      | .input => .ok { d with input := some v }
      | .assignments => .ok { d with assignments := some v }
      | .config => if v = "" then .error .invalidValue else .ok { d with config := some v }
      | .format =>
        if v = "text" then .ok { d with format := some .text }
        else if v = "json" then .ok { d with format := some .json }
        else .error .invalidValue

/-- Settles the pending option. -/
def settle (d : Draft) : Except UsageError Draft :=
  match d.pending with
  | none => .ok d
  | some (o, value) => { d with pending := none }.setValue o value

/-- An option with its value, or one that waits for it. -/
def addValued (d : Draft) (o : Valued) (value : Option String) : Except UsageError Draft := do
  let d ← d.settle
  match value with
  | some v => d.setValue o (some v)
  | none => return { d with pending := some (o, none) }

/-- A switch. Those other than `verbose` may be given only once. -/
def addSwitch (d : Draft) (s : Switch) : Except UsageError Draft := do
  let d ← d.settle
  match s with
  | .strict => if d.strict then throw .argumentConflict else return { d with strict := true }
  | .tree => if d.tree then throw .argumentConflict else return { d with tree := true }
  | .verbose => return { d with verbosity := min (d.verbosity + 1) 255 }
  | .help => throw .displayHelp

/-- An argument behind two dashes: a name, and a value if there is an equals sign. -/
def addLong (d : Draft) (arg : List Char) : Except UsageError Draft :=
  let name := arg.takeWhile (· ≠ '=')
  let value := match arg.dropWhile (· ≠ '=') with
    | [] => none
    | _ :: v => some (String.ofList v)
  match long? name with
  | some (.inl o) => d.addValued o value
  | some (.inr s) => if value.isSome then .error .tooManyValues else d.addSwitch s
  | none => .error .unknownArgument

/-- An argument behind one dash: a letter, and a value if anything follows. -/
def addShort (d : Draft) (letter : Char) (more : List Char) : Except UsageError Draft :=
  match short? letter with
  | some (.inl o) =>
    d.addValued o <| match more with
      | [] => none
      | '=' :: v => some (String.ofList v)
      | v => some (String.ofList v)
  | some (.inr s) => d.addSwitch s
  | none => .error .unknownArgument

/-- An argument that is no option: the value of an option that waits for one. -/
def addPlain (d : Draft) (arg : String) : Except UsageError Draft :=
  match d.pending with
  | some (o, none) => .ok { d with pending := some (o, some arg) }
  | _ => .error .unknownArgument

/-- One argument other than two dashes alone. -/
def add (d : Draft) (arg : String) : Except UsageError Draft :=
  match arg.toList with
  | '-' :: '-' :: rest => d.addLong rest
  | '-' :: c :: rest => d.addShort c rest
  | _ => d.addPlain arg

/-- The options of a run, for which an input must have been given. -/
def complete (d : Draft) : Except UsageError Options := do
  let d ← d.settle
  match d.input with
  | none => throw .missingRequiredArgument
  | some input =>
    return ⟨input, d.assignments.getD "", d.config, d.strict, d.tree, d.verbosity,
      d.format.getD .text⟩

end Draft

/-- Goes on with the arguments that are left. Nothing may follow two dashes alone. -/
def parseFrom (d : Draft) : List String → Except UsageError Options
  | [] => d.complete
  | arg :: args =>
    if arg = "--" then
      if args.isEmpty then d.complete else .error .unknownArgument
    else do parseFrom (← d.add arg) args

/-- The options that the arguments, without the name of the program, ask for. -/
def parse (args : List String) : Except UsageError Options := parseFrom .empty args

end CommandLine
end Condition
