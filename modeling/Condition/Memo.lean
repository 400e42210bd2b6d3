/-
Evaluation that parses each expression once. A `Memo` keeps the trees of the
expressions that could be parsed; what it answers is what evaluation without it
answers.
-/
import Condition.Evaluation

namespace Condition

/-- The expressions parsed so far with their trees, the latest first. -/
structure Memo where
  trees : List (String × Node)

namespace Memo

def empty : Memo := ⟨[]⟩

def find? (memo : Memo) (expression : String) : Option Node :=
  (memo.trees.find? (·.1 = expression)).map (·.2)

/-- The number of expressions kept. -/
def size (memo : Memo) : Nat := memo.trees.length

/-- The tree of an expression and the memo that has it. An expression that cannot be
parsed leaves no trace. -/
def tree (memo : Memo) (expression : String) : Except ParseError Node × Memo :=
  match memo.find? expression with
  | some tree => (.ok tree, memo)
  | none =>
    match parseExpression expression with
    | .error e => (.error e, memo)
    | .ok tree => (.ok tree, ⟨(expression, tree) :: memo.trees⟩)

def evaluateValue (memo : Memo) (expression : String) (vars : Variables) : Outcome × Memo :=
  match memo.tree expression with
  | (.error e, memo') => (.error (.parse e), memo')
  | (.ok tree, memo') => (tree.evaluate vars, memo')

def evaluate (memo : Memo) (expression : String) (vars : Variables) :
    Except EvalError Bool × Memo :=
  let (outcome, memo') := memo.evaluateValue expression vars
  (outcome.map Value.truthy, memo')

end Memo
end Condition
