/-
Expression trees: a token with up to two operands. The trees of parsed
expressions have no node with a right operand only, but a tree given by hand may.
-/
import Condition.Token

namespace Condition

inductive Node
  | leaf (token : Token)
  | unary (token : Token) (left : Node)
  | rightOnly (token : Token) (right : Node)
  | binary (token : Token) (left right : Node)
deriving DecidableEq, Repr

namespace Node

/-- The token at the root. -/
def token : Node → Token
  | leaf t | unary t _ | rightOnly t _ | binary t _ _ => t

def left? : Node → Option Node
  | unary _ l | binary _ l _ => some l
  | leaf _ | rightOnly _ _ => none

def right? : Node → Option Node
  | rightOnly _ r | binary _ _ r => some r
  | leaf _ | unary _ _ => none

/-- The node with this token and these operands. -/
def ofOperands (token : Token) : Option Node → Option Node → Node
  | none, none => leaf token
  | some l, none => unary token l
  | none, some r => rightOnly token r
  | some l, some r => binary token l r

/-- A leaf is its label; any other node is its label and its operands in parentheses. -/
def render : Node → String
  | leaf t => t.label
  | unary t l => "(" ++ t.label ++ " " ++ l.render ++ ")"
  | rightOnly t r => "(" ++ t.label ++ " " ++ r.render ++ ")"
  | binary t l r => "(" ++ t.label ++ " " ++ l.render ++ " " ++ r.render ++ ")"

/-- All nodes of the tree, each before its operands and the left operand before the right. -/
def preorder : Node → List Node
  | leaf t => [leaf t]
  | unary t l => unary t l :: l.preorder
  | rightOnly t r => rightOnly t r :: r.preorder
  | binary t l r => binary t l r :: (l.preorder ++ r.preorder)

end Node
end Condition
