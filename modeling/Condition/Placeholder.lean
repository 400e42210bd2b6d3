/-
Placeholders `${NAME}` in text, each of which stands for the value that an
environment gives to the name. The text is gone through once from left to right:
a value is taken over as it is and not looked at again, and the first placeholder
at fault decides the error, with its byte offset in the text as given.
-/
import Condition.Text

namespace Condition

inductive PlaceholderError
  | unterminated (offset : Nat)
  | empty (offset : Nat)
  | unset (name : String)
deriving DecidableEq, Repr

def PlaceholderError.message : PlaceholderError → String
  | unterminated offset =>
    "`$\x7b` at " ++ toString offset ++ " has no closing `\x7d`"
  | empty offset => "empty `$\x7b\x7d` at " ++ toString offset
  | unset name => "environment variable `" ++ name ++ "` is not set"

/-- The values of the names that are set. -/
abbrev Environment := String → Option String

namespace Placeholder

theorem cut?_length_lt {sep : Char} {cs before after : List Char}
    (h : Text.cut? sep cs = some (before, after)) : after.length < cs.length := by
  rw [(Text.cut?_eq_some h).1]
  simp; omega

/-- The text with its placeholders replaced, where `offset` is the byte offset of the
text in the whole. -/
def expandFrom (env : Environment) (offset : Nat) :
    List Char → Except PlaceholderError (List Char)
  | [] => .ok []
  | '$' :: '{' :: cs =>
    match _h : Text.cut? '}' cs with
    | none => .error (.unterminated offset)
    | some (name, tail) =>
      if name.isEmpty then .error (.empty offset)
      else match env (String.ofList name) with
        | none => .error (.unset (String.ofList name))
        | some value =>
          (expandFrom env (offset + Text.byteLength name + 3) tail).map (value.toList ++ ·)
  | c :: cs => (expandFrom env (offset + c.utf8Size) cs).map (c :: ·)
termination_by cs => cs.length
decreasing_by
  · have := cut?_length_lt _h
    simp; omega
  · simp

/-- The text with its placeholders replaced, or the first fault. -/
def expand (env : Environment) (text : String) : Except PlaceholderError String :=
  (expandFrom env 0 text.toList).map String.ofList

/-- The names of all placeholders in the text, whether or not they are set. -/
def namesIn : List Char → List String
  | [] => []
  | '$' :: '{' :: cs =>
    match _h : Text.cut? '}' cs with
    | none => []
    | some (name, tail) => String.ofList name :: namesIn tail
  | _ :: cs => namesIn cs
termination_by cs => cs.length
decreasing_by
  · have := cut?_length_lt _h
    simp; omega
  · simp

end Placeholder
end Condition
