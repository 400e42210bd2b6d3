/-
Values of the expression language, and what its operators do with them. The
arithmetic operators are given by their exact results; whether such a result is a
value is a question for `Integer.fit?`.
-/
import Condition.Integer
import Condition.Token

namespace Condition

inductive ValueType
  | int
  | bool
deriving DecidableEq, Repr

def ValueType.name : ValueType → String
  | .int => "int"
  | .bool => "bool"

inductive Value
  | int (n : Int64)
  | bool (b : Bool)
deriving DecidableEq

namespace Value

def type : Value → ValueType
  | int _ => .int
  | bool _ => .bool

/-- A value as the answer to a condition: an integer holds when it is positive. -/
def truthy : Value → Bool
  | int n => 0 < n
  | bool b => b

def render : Value → String
  | int n => Integer.render n
  | bool b => if b then "true" else "false"

end Value

/-- The exact result. -/
def Arithmetic.exact : Arithmetic → Int → Int → Int
  | plus, a, b => a + b
  | minus, a, b => a - b
  | times, a, b => a * b

def Comparison.holds : Comparison → Int64 → Int64 → Bool
  | greater, a, b => b < a
  | greaterEqual, a, b => b ≤ a
  | lesser, a, b => a < b
  | lesserEqual, a, b => a ≤ b
  | equal, a, b => a = b
  | notEqual, a, b => a ≠ b

def Connective.holds : Connective → Bool → Bool → Bool
  | and, a, b => a && b
  | or, a, b => a || b

end Condition
