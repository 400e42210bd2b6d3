/-
Reading a JSON document strictly: nothing but blanks around it, no trailing commas,
no comments, no control characters inside strings, no leading zeros in numbers.

Each reader takes a text and gives what stands at its start with the text behind it.
-/
import Condition.Integer
import Condition.Json.Value

namespace Condition.Json

def isBlank (c : Char) : Bool := c = ' ' || c = '\t' || c = '\n' || c = '\r'

def skipBlanks (cs : List Char) : List Char := cs.dropWhile isBlank

/-! ## Strings -/

/-- The text of a string read so far, in reverse, with a high surrogate that waits for
its other half. -/
structure Partial where
  text : Option (List Char)
  high : Option Nat

namespace Partial

def empty : Partial := ⟨some [], none⟩

/-- A high surrogate that is followed by something else spoils the text. -/
def settle (t : Partial) : Option (List Char) := if t.high.isSome then none else t.text

def push (t : Partial) (c : Char) : Partial := ⟨t.settle.map (c :: ·), none⟩

/-- Adds the code unit of a numeric escape. -/
def pushUnit (t : Partial) (unit : Nat) : Partial :=
  if 0xD800 ≤ unit ∧ unit < 0xDC00 then ⟨t.settle, some unit⟩
  else if 0xDC00 ≤ unit ∧ unit < 0xE000 then
    match t.high with
    | some high =>
      ⟨t.text.map (Char.ofNat (0x10000 + (high - 0xD800) * 0x400 + (unit - 0xDC00)) :: ·), none⟩
    | none => ⟨none, none⟩
  else t.push (Char.ofNat unit)

def finish (t : Partial) : Text := t.settle.map fun cs => String.ofList cs.reverse

end Partial

/-- The character of a one-letter escape. -/
def escape? : Char → Option Char
  | '"' => some '"'
  | '\\' => some '\\'
  | '/' => some '/'
  | 'b' => some '\x08'
  | 'f' => some '\x0c'
  | 'n' => some '\n'
  | 'r' => some '\r'
  | 't' => some '\t'
  | _ => none

/-- The rest of a string whose opening quote has been read. -/
def readString (t : Partial) : List Char → Option (Text × List Char)
  | [] => none
  | '"' :: cs => some (t.finish, cs)
  | '\\' :: 'u' :: a :: b :: c :: d :: cs =>
    match Integer.digits? 16 0 [a, b, c, d] with
    | some unit => readString (t.pushUnit unit) cs
    | none => none
  | '\\' :: e :: cs =>
    match escape? e with
    | some c => readString (t.push c) cs
    | none => none
  | c :: cs => if c.toNat < 0x20 then none else readString (t.push c) cs

/-! ## Numbers -/

/-- One or more digits. -/
def readDigits (cs : List Char) : Option (List Char × List Char) :=
  match cs.takeWhile Char.isDigit with
  | [] => none
  | digits => some (digits, cs.dropWhile Char.isDigit)

/-- Digits of which the first is 0 only if it is the only one. -/
def readWhole (cs : List Char) : Option (List Char × List Char) := do
  let (digits, rest) ← readDigits cs
  if digits.head? = some '0' ∧ digits.length ≠ 1 then none else some (digits, rest)

/-- A point with digits behind it, or nothing. -/
def readFraction : List Char → Option (List Char × List Char)
  | '.' :: cs => do
    let (digits, rest) ← readDigits cs
    return ('.' :: digits, rest)
  | cs => some ([], cs)

/-- The letter `e` with an exponent behind it, or nothing. -/
def readExponent (cs : List Char) : Option (List Char × List Char) :=
  match cs with
  | e :: cs =>
    if e = 'e' ∨ e = 'E' then do
      let (sign, cs) := match cs with
        | '+' :: cs => (['+'], cs)
        | '-' :: cs => (['-'], cs)
        | cs => ([], cs)
      let (digits, rest) ← readDigits cs
      return (e :: sign ++ digits, rest)
    else some ([], e :: cs)
  | [] => some ([], [])

/-- The spelling of a number. -/
def readNumber (cs : List Char) : Option (List Char × List Char) := do
  let (sign, cs) := match cs with
    | '-' :: cs => (['-'], cs)
    | cs => ([], cs)
  let (whole, cs) ← readWhole cs
  let (fraction, cs) ← readFraction cs
  let (exponent, cs) ← readExponent cs
  return (sign ++ whole ++ fraction ++ exponent, cs)

/-! ## Values -/

mutual

/-- A value that starts with the next character that is no blank. The first argument
bounds the steps, of which each takes a character. -/
def readValue : Nat → List Char → Option (Value × List Char)
  | 0, _ => none
  | n + 1, cs =>
    match skipBlanks cs with
    | 'n' :: 'u' :: 'l' :: 'l' :: cs => some (.null, cs)
    | 't' :: 'r' :: 'u' :: 'e' :: cs => some (.bool true, cs)
    | 'f' :: 'a' :: 'l' :: 's' :: 'e' :: cs => some (.bool false, cs)
    | '"' :: cs => (readString .empty cs).map fun (text, rest) => (.string text, rest)
    | '[' :: cs =>
      match skipBlanks cs with
      | ']' :: cs => some (.array [], cs)
      | cs => (readItems n cs).map fun (items, rest) => (.array items, rest)
    | '{' :: cs =>
      match skipBlanks cs with
      | '}' :: cs => some (.object [], cs)
      | cs => (readFields n cs).map fun (fields, rest) => (.object fields, rest)
    | cs => (readNumber cs).map fun (spelling, rest) => (.number spelling, rest)

/-- The items of an array, at least one, and the closing bracket. -/
def readItems : Nat → List Char → Option (List Value × List Char)
  | 0, _ => none
  | n + 1, cs => do
    let (item, cs) ← readValue n cs
    match skipBlanks cs with
    | ']' :: cs => return ([item], cs)
    | ',' :: cs => do
      let (items, cs) ← readItems n cs
      return (item :: items, cs)
    | _ => none

/-- The fields of an object, at least one, and the closing brace. -/
def readFields : Nat → List Char → Option (List (Text × Value) × List Char)
  | 0, _ => none
  | n + 1, cs =>
    match skipBlanks cs with
    | '"' :: cs => do
      let (name, cs) ← readString .empty cs
      match skipBlanks cs with
      | ':' :: cs => do
        let (value, cs) ← readValue n cs
        match skipBlanks cs with
        | '}' :: cs => return ([(name, value)], cs)
        | ',' :: cs => do
          let (fields, cs) ← readFields n cs
          return ((name, value) :: fields, cs)
        | _ => none
      | _ => none
    | _ => none

end

/-- The document that the whole text is. -/
def read (text : String) : Option Value := do
  let cs := text.toList
  let (value, rest) ← readValue (cs.length + 1) cs
  if (skipBlanks rest).isEmpty then some value else none

end Condition.Json
