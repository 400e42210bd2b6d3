/-
Writing JSON with two blanks for each level and one field a line.
-/

namespace Condition.Json

/-- The lower-case hexadecimal digit of a number below 16. -/
def hexDigit (n : Nat) : Char := Char.ofNat (if n < 10 then '0'.toNat + n else 'a'.toNat + (n - 10))

/-- A character inside a string: quotes, backslashes and control characters are
escaped, the latter by a letter where there is one. -/
def writeChar (c : Char) : List Char :=
  match c with
  | '"' => ['\\', '"']
  | '\\' => ['\\', '\\']
  | '\x08' => ['\\', 'b']
  | '\x0c' => ['\\', 'f']
  | '\n' => ['\\', 'n']
  | '\r' => ['\\', 'r']
  | '\t' => ['\\', 't']
  | c =>
    if c.toNat < 0x20 then
      ['\\', 'u', '0', '0', hexDigit (c.toNat / 16), hexDigit (c.toNat % 16)]
    else [c]

def quote (text : String) : String :=
  "\"" ++ String.ofList (text.toList.flatMap writeChar) ++ "\""

def writeBool (b : Bool) : String := if b then "true" else "false"

/-- An object at this level of nesting, whose fields have their values written. -/
def writeObject (level : Nat) (fields : List (String × String)) : String :=
  let indent := String.ofList (List.replicate (2 * level) ' ')
  let line := fun (name, value) => indent ++ "  " ++ quote name ++ ": " ++ value
  match fields with
  | [] => "\x7b\x7d"
  | _ => "\x7b\n" ++ ",\n".intercalate (fields.map line) ++ "\n" ++ indent ++ "\x7d"

end Condition.Json
