/-
The value of an expression. A tree is evaluated from its leaves up, the left
operand before the right, and nothing is left out: both sides of AND and OR
always count, so an error on either side is an error of the whole.

`step` is what one node does with the outcomes of its operands.
-/
import Condition.Parser
import Condition.Value
import Condition.Variables

namespace Condition

inductive EvalError
  | parse (e : ParseError)
  | typeMismatch (operator : TokenKind) (expected : ValueType) (found : Value)
  | overflow (operator : TokenKind) (left right : Int64)
  | invalidNumber (text : String)
  | missingOperand (kind : TokenKind)
  | unsupportedNode (kind : TokenKind)
deriving DecidableEq

def EvalError.message : EvalError → String
  | parse e => "parse error: " ++ e.message
  | typeMismatch operator expected found =>
    "type mismatch: " ++ operator.name ++ " expects " ++ expected.name ++ " operands, found " ++
      found.type.name ++ " " ++ found.render
  | overflow operator left right =>
    "integer overflow evaluating " ++ Integer.render left ++ " " ++ operator.name ++ " " ++
      Integer.render right
  | invalidNumber text => "invalid number literal: " ++ text
  | missingOperand kind => kind.name ++ " node is missing an operand"
  | unsupportedNode kind => kind.name ++ " cannot appear in an expression tree"

/-- The outcome of an evaluation. -/
abbrev Outcome := Except EvalError Value

/-- The outcome of an operand that may be absent. -/
def operandOf (kind : TokenKind) : Option Outcome → Outcome
  | some outcome => outcome
  | none => .error (.missingOperand kind)

def asInt (operator : TokenKind) : Value → Except EvalError Int64
  | .int n => .ok n
  | .bool b => .error (.typeMismatch operator .int (.bool b))

def asBool (operator : TokenKind) : Value → Except EvalError Bool
  | .bool b => .ok b
  | .int n => .error (.typeMismatch operator .bool (.int n))

/-- Two integer operands: both outcomes come before either type is looked at. -/
def intOperands (operator : TokenKind) (left right : Option Outcome) :
    Except EvalError (Int64 × Int64) := do
  let l ← operandOf operator left
  let r ← operandOf operator right
  return (← asInt operator l, ← asInt operator r)

/-- Two truth values: the type of the left one is looked at before the right outcome. -/
def boolOperands (operator : TokenKind) (left right : Option Outcome) :
    Except EvalError (Bool × Bool) := do
  let l ← asBool operator (← operandOf operator left)
  let r ← asBool operator (← operandOf operator right)
  return (l, r)

/-- The outcome of a node, given those of the operands that it has. -/
def step (vars : Variables) (token : Token) (left right : Option Outcome) : Outcome :=
  match token.kind with
  | .number =>
    match Integer.readDecimal? token.text with
    | some n => .ok (.int n)
    | none => .error (.invalidNumber token.text)
  | .identifier => .ok (.int (vars.value token.text))
  | .operator (.arithmetic a) => do
    let (l, r) ← intOperands token.kind left right
    match Integer.fit? (a.exact l.toInt r.toInt) with
    | some n => .ok (.int n)
    | none => .error (.overflow token.kind l r)
  | .operator (.comparison c) => do
    let (l, r) ← intOperands token.kind left right
    return .bool (c.holds l r)
  | .operator (.connective c) => do
    let (l, r) ← boolOperands token.kind left right
    return .bool (c.holds l r)
  | .not => do
    let b ← asBool token.kind (← operandOf token.kind left)
    return .bool !b
  | .leftParen | .rightParen | .endOfInput => .error (.unsupportedNode token.kind)

/-- The value of a tree, or the first error on the way up to its root. -/
def Node.evaluate (vars : Variables) : Node → Outcome
  | .leaf t => step vars t none none
  | .unary t l => step vars t (some (l.evaluate vars)) none
  | .rightOnly t r => step vars t none (some (r.evaluate vars))
  | .binary t l r => step vars t (some (l.evaluate vars)) (some (r.evaluate vars))

/-- The value of the expression at the start of the text. -/
def evaluateValue (expression : String) (vars : Variables) : Outcome :=
  match parseExpression expression with
  | .error e => .error (.parse e)
  | .ok tree => tree.evaluate vars

/-- Whether the expression at the start of the text holds. -/
def evaluate (expression : String) (vars : Variables) : Except EvalError Bool :=
  (evaluateValue expression vars).map Value.truthy

end Condition
