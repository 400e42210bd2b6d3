/-
The words of the expression language: the kinds of token with their names, their
spellings and the powers by which operators bind, and tokens with their place in
the text.
-/

namespace Condition

inductive Arithmetic
  | plus | minus | times
deriving DecidableEq, Repr

inductive Comparison
  | greater | greaterEqual | lesser | lesserEqual | equal | notEqual
deriving DecidableEq, Repr

inductive Connective
  | and | or
deriving DecidableEq, Repr

/-- The eleven operators that stand between two operands. -/
inductive Operator
  | arithmetic (a : Arithmetic)
  | comparison (c : Comparison)
  | connective (c : Connective)
deriving DecidableEq, Repr

inductive TokenKind
  | leftParen
  | rightParen
  | operator (o : Operator)
  | not
  | number
  | identifier
  | endOfInput
deriving DecidableEq, Repr

/-! ## Names and spellings -/

def Operator.name : Operator → String
  | .arithmetic .plus => "PLUS"
  | .arithmetic .minus => "MINUS"
  | .arithmetic .times => "MULTIPLY"
  | .comparison .greater => "GREATER"
  | .comparison .greaterEqual => "GREATEREQUAL"
  | .comparison .lesser => "LESSER"
  | .comparison .lesserEqual => "LESSEREQUAL"
  | .comparison .equal => "EQUAL"
  | .comparison .notEqual => "NOTEQUAL"
  | .connective .and => "AND"
  | .connective .or => "OR"

def Operator.symbol : Operator → String
  | .arithmetic .plus => "+"
  | .arithmetic .minus => "-"
  | .arithmetic .times => "*"
  | .comparison .greater => ">"
  | .comparison .greaterEqual => ">="
  | .comparison .lesser => "<"
  | .comparison .lesserEqual => "<="
  | .comparison .equal => "=="
  | .comparison .notEqual => "!="
  | .connective .and => "AND"
  | .connective .or => "OR"

/-- The name of the kind in messages. -/
def TokenKind.name : TokenKind → String
  | .leftParen => "LEFTPAREN"
  | .rightParen => "RIGHTPAREN"
  | .operator o => o.name
  | .not => "NOT"
  | .number => "NUMBER"
  | .identifier => "IDENTIFIER"
  | .endOfInput => "END"

/-- The spelling of a kind that has only one. -/
def TokenKind.symbol? : TokenKind → Option String
  | .leftParen => some "("
  | .rightParen => some ")"
  | .operator o => some o.symbol
  | .not => some "NOT"
  | .number | .identifier | .endOfInput => none

/-- The reserved words, which no variable can have as its name. -/
def TokenKind.keyword? (word : String) : Option TokenKind :=
  if word = "AND" then some (.operator (.connective .and))
  else if word = "OR" then some (.operator (.connective .or))
  else if word = "NOT" then some .not
  else none

/-! ## Binding powers -/

/-- How tightly the operator holds its operands. -/
def Operator.power : Operator → Nat
  | .connective _ => 25
  | .comparison _ => 30
  | .arithmetic .plus | .arithmetic .minus => 40
  | .arithmetic .times => 50

/-- The power with which a kind continues an expression on its left. The parentheses
have the least positive power: it stops the inside of a group, which is read at that
same power, and nothing else. -/
def TokenKind.power : TokenKind → Nat
  | .leftParen | .rightParen => 1
  | .operator o => o.power
  | .not | .number | .identifier | .endOfInput => 0

theorem Operator.one_lt_power (o : Operator) : 1 < o.power := by
  cases o with
  | arithmetic a => cases a <;> simp [Operator.power]
  | comparison c => simp [Operator.power]
  | connective c => simp [Operator.power]

/-! ## Tokens -/

/-- A token and the byte offset at which it starts. Only numbers and identifiers carry text. -/
structure Token where
  kind : TokenKind
  text : String
  pos : Nat
deriving DecidableEq, Repr

/-- The kind, followed by the text in parentheses when there is any. -/
def Token.render (t : Token) : String :=
  if t.text = "" then t.kind.name else t.kind.name ++ "(" ++ t.text ++ ")"

/-- What stands in the source for the token. -/
def Token.label (t : Token) : String := t.kind.symbol?.getD t.text

end Condition
