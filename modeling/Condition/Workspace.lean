/-
The surroundings of a run: files that can be read and names that an environment sets.
A `Workspace` is what reading them answers; `ofFiles` is the workspace of a directory
that holds the given files and nothing else.
-/
import Condition.Placeholder

namespace Condition

/-- Why a file cannot be read as text. -/
inductive ReadFailure
  | notFound
  | isDirectory
  | notDirectory
  | notText
  | other (reason : String)
deriving DecidableEq, Repr

def ReadFailure.message : ReadFailure → String
  | notFound => "No such file or directory (os error 2)"
  | isDirectory => "Is a directory (os error 21)"
  | notDirectory => "Not a directory (os error 20)"
  | notText => "stream did not contain valid UTF-8"
  | other reason => reason

structure Workspace where
  read : String → Except ReadFailure String
  env : Environment

namespace Workspace

/-- The names on a path. A dot stands for the directory itself, and so do two slashes. -/
def pathNames (path : String) : List (List Char) :=
  (Text.split '/' path.toList).filter fun name => !name.isEmpty && name ≠ ['.']

/-- Whether a path can only name a directory. -/
def demandsDirectory (path : String) : Bool :=
  match (Text.split '/' path.toList).getLast? with
  | some last => last.isEmpty || last = ['.']
  | none => true

/-- Reads a file of a directory with exactly these files. -/
def readIn (files : List (String × ByteArray)) (path : String) : Except ReadFailure String :=
  let names := pathNames path
  let entries := files.map fun (name, bytes) => (pathNames name, bytes)
  if path = "" then .error .notFound
  else if names = [] then .error .isDirectory
  else match entries.find? (·.1 = names) with
    | some (_, bytes) =>
      if demandsDirectory path then .error .notDirectory
      else match String.fromUTF8? bytes with
        | some text => .ok text
        | none => .error .notText
    | none =>
      if entries.any fun e => names.isPrefixOf e.1 then .error .isDirectory
      else if entries.any fun e => e.1.isPrefixOf names then .error .notDirectory
      else .error .notFound

/-- The workspace of these files and this environment. -/
def ofFiles (files : List (String × ByteArray)) (env : List (String × String)) : Workspace :=
  ⟨readIn files, fun name => env.lookup name⟩

end Workspace
end Condition
