/-
The names that variables can have. A name is a run of name characters that starts
with no ASCII digit and is not reserved. Name characters are word characters, so
the language reads every name as one identifier; the converse fails only for the
letters and digits that are new in Unicode 17, which identifiers can hold and names
cannot.
-/
import Condition.Lexer
import Condition.Unicode.Age

namespace Condition

/-- Why a name or a list of assignments is refused. -/
inductive AssignmentError
  | missingSeparator (entry : String)
  | invalidValue (name value : String)
  | invalidName (name : String)
  | reservedName (name : String)
deriving DecidableEq, Repr

def AssignmentError.message : AssignmentError → String
  | missingSeparator entry => "entry `" ++ entry ++ "` is not in NAME=VALUE form"
  | invalidValue name value => "invalid integer `" ++ value ++ "` for variable `" ++ name ++ "`"
  | invalidName name => "invalid variable name `" ++ name ++ "`"
  | reservedName name => "`" ++ name ++ "` is a reserved word and cannot name a variable"

namespace Variables

/-- The underscore, and the letters and digits that Unicode already had in version 16. -/
def isNameChar (c : Char) : Bool := isWordChar c && !Unicode.isAlphanumericOfAge17 c

theorem isWordChar_of_isNameChar {c : Char} (h : isNameChar c = true) : isWordChar c = true := by
  simp only [isNameChar, Bool.and_eq_true] at h
  exact h.1

/-- A name character other than an ASCII digit, and then name characters only. -/
def hasNameShape : List Char → Bool
  | [] => false
  | c :: cs => isNameChar c && !c.isDigit && cs.all isNameChar

/-- Accepts the names of that shape that are no reserved words. -/
def checkName (name : String) : Except AssignmentError Unit :=
  if !hasNameShape name.toList then .error (.invalidName name)
  else if (TokenKind.keyword? name).isSome then .error (.reservedName name)
  else .ok ()

end Variables
end Condition
