/-
The integers that YAML scalars write: in decimal, or in base 16, 8 or 2 behind `0x`,
`0o` or `0b`, with a sign in front. Decimal digits with a leading zero are text.
-/
import Condition.Integer

namespace Condition.Yaml

/-- The base that a prefix announces, and the digits behind it. -/
def basePrefix? : List Char → Option (Nat × List Char)
  | '0' :: 'x' :: cs => some (16, cs)
  | '0' :: 'o' :: cs => some (8, cs)
  | '0' :: 'b' :: cs => some (2, cs)
  | _ => none

def startsWithSign : List Char → Bool
  | '+' :: _ | '-' :: _ => true
  | _ => false

/-- Two or more digits, the first of them 0. -/
def isZeroPadded : List Char → Bool
  | '0' :: c :: cs => (c :: cs).all Char.isDigit
  | _ => false

/-- A number without a sign in a base that its prefix names, or a decimal number that
may have a minus sign. -/
def integerOf (cs : List Char) : Option Int64 :=
  match cs with
  | '-' :: digits =>
    match basePrefix? digits with
    | some (base, digits) => Integer.read? base ('-' :: digits)
    | none => if isZeroPadded digits then none else Integer.read? 10 cs
  | _ =>
    match basePrefix? cs with
    | some (base, digits) => if startsWithSign digits then none else Integer.read? base digits
    | none => if isZeroPadded cs then none else Integer.read? 10 cs

/-- The 64-bit integer that a scalar writes. -/
def integer? (text : String) : Option Int64 :=
  match text.toList with
  | '+' :: cs => if startsWithSign cs then none else integerOf cs
  | cs => integerOf cs

end Condition.Yaml
