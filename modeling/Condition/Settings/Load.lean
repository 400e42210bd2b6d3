/-
Loading settings from a file: its text is read, placeholders in it are replaced, the
result is read as JSON or YAML, and the settings are checked.
-/
import Condition.Settings.Json
import Condition.Settings.Yaml
import Condition.Workspace

namespace Condition

/-- How a settings file is written. -/
inductive Format
  | json
  | yaml
  /-- YAML if it can be read as such, else JSON. -/
  | unknown
deriving DecidableEq, Repr

namespace Format

/-- The part of a file name behind its last point, unless that is the first character. -/
def extension? (name : List Char) : Option (List Char) :=
  match Text.cut? '.' name.reverse with
  | some (_, []) => none
  | some (ext, _) => some ext.reverse
  | none => none

/-- The format that the extension of a path names, in lower case only. -/
def ofPath (path : String) : Format :=
  match (Workspace.pathNames path).getLast?.bind extension? with
  | some ext =>
    let ext := String.ofList ext
    if ext = "json" then json else if ext = "yaml" ∨ ext = "yml" then yaml else unknown
  | none => unknown

end Format

inductive SettingsError
  | unreadable (path : String) (reason : ReadFailure)
  | placeholder (e : PlaceholderError)
  | malformed (format : Format)
  | invalid (issues : List String)
deriving DecidableEq, Repr

/-- What is said of a text that is not in this format. -/
def Format.complaint : Format → String
  | json => "json decode error"
  | yaml => "yaml decode error"
  | unknown => "not valid yaml or json"

def SettingsError.message : SettingsError → String
  | unreadable path reason => "read runner config failed `" ++ path ++ "`: " ++ reason.message
  | placeholder e => "runner config placeholder error: " ++ e.message
  | malformed format => "runner config parse failed: " ++ format.complaint
  | invalid issues => "runner config validation failed: " ++ "; ".intercalate issues

namespace Settings

/-- The settings that a text writes in this format. -/
def decode? (format : Format) (text : String) : Option Settings :=
  match format with
  | .json => ofJson? text
  | .yaml => ofYaml? text
  | .unknown => (ofYaml? text).or (ofJson? text)

/-- The settings, unless something is wrong with them. -/
def check (s : Settings) : Except SettingsError Settings :=
  if s.issues.isEmpty then .ok s else .error (.invalid s.issues)

/-- The settings of a file. -/
def load (w : Workspace) (path : String) : Except SettingsError Settings := do
  let raw ← (w.read path).mapError (SettingsError.unreadable path)
  let text ← (Placeholder.expand w.env raw).mapError SettingsError.placeholder
  match decode? (.ofPath path) text with
  | some s => s.check
  | none => throw (.malformed (.ofPath path))

end Settings
end Condition
