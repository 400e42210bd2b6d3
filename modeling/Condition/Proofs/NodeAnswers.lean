/-
What one node of a regular tree can answer: a value made of its operands' values, an
operand's error that it passes on, or an error of its own (`Fault`). `answers_of_evaluate`
says this once of the evaluator; what holds of whole trees follows from it by cases. In
particular every error of a tree is the fault of one of its nodes (`exists_fault`).
-/
import Condition.Evaluation
import Condition.Proofs.TreeShape

namespace Condition

/-- The type of the values that the operator takes. -/
def Operator.operandType : Operator → ValueType
  | .arithmetic _ | .comparison _ => .int
  | .connective _ => .bool

/-- What the operator makes of two values, if they have its type and the result has one. -/
def Operator.apply : Operator → Value → Value → Option Value
  | .arithmetic a, .int x, .int y => (Integer.fit? (a.exact x.toInt y.toInt)).map .int
  | .comparison c, .int x, .int y => some (.bool (c.holds x y))
  | .connective c, .bool x, .bool y => some (.bool (c.holds x y))
  | _, _, _ => none

/-- The type of the values that a node of this kind takes. -/
def TokenKind.operandType? : TokenKind → Option ValueType
  | .operator o => some o.operandType
  | .not => some .bool
  | .leftParen | .rightParen | .number | .identifier | .endOfInput => none

/-- An error that arises at the node itself, with the operand values it comes from. -/
inductive Fault (vars : Variables) : Node → EvalError → Prop
  | literal {t} : t.kind = .number → Integer.readDecimal? t.text = none →
      Fault vars (.leaf t) (.invalidNumber t.text)
  | overflow {t a l r x y} : t.kind = .operator (.arithmetic a) →
      l.evaluate vars = .ok (.int x) → r.evaluate vars = .ok (.int y) →
      Integer.fit? (a.exact x.toInt y.toInt) = none →
      Fault vars (.binary t l r) (.overflow (.operator (.arithmetic a)) x y)
  | mistyped {n m : Node} {k τ v} : n.token.kind = k → k.operandType? = some τ → m.OperandOf n →
      m.evaluate vars = .ok v → v.type ≠ τ → Fault vars n (.typeMismatch k τ v)

/-- What a node can answer. -/
inductive Answers (vars : Variables) : Node → Outcome → Prop
  | number {t n} : t.kind = .number → Integer.readDecimal? t.text = some n →
      Answers vars (.leaf t) (.ok (.int n))
  | identifier {t} : t.kind = .identifier →
      Answers vars (.leaf t) (.ok (.int (vars.value t.text)))
  | negation {t n b} : t.kind = .not → n.evaluate vars = .ok (.bool b) →
      Answers vars (.unary t n) (.ok (.bool !b))
  | operator {t o l r x y v} : t.kind = .operator o → l.evaluate vars = .ok x →
      r.evaluate vars = .ok y → o.apply x y = some v → Answers vars (.binary t l r) (.ok v)
  | passed {n m : Node} {e} : m.OperandOf n → m.evaluate vars = .error e →
      Answers vars n (.error e)
  | fault {n e} : Fault vars n e → Answers vars n (.error e)

/-! ## The answers of one node, kind by kind -/

section

variable {vars : Variables}

theorem answers_leaf {t : Token} (h : t.kind = .number ∨ t.kind = .identifier) :
    Answers vars (.leaf t) ((Node.leaf t).evaluate vars) := by
  simp only [Node.evaluate, step]
  rcases h with hk | hk <;> simp only [hk]
  · split
    · next n hn => exact .number hk hn
    · next hn => exact .fault (.literal hk hn)
  · exact .identifier hk

theorem answers_negation {t : Token} {n : Node} (hk : t.kind = .not) :
    Answers vars (.unary t n) ((Node.unary t n).evaluate vars) := by
  simp only [Node.evaluate, step, hk, operandOf]
  cases hn : n.evaluate vars with
  | error e => exact .passed (.inl rfl) hn
  | ok v =>
    cases v with
    | bool b => exact .negation hk hn
    | int i =>
      have hwants : TokenKind.not.operandType? = some .bool := rfl
      exact .fault (.mistyped hk hwants (.inl rfl) hn (by simp [Value.type]))

theorem intOperands_cases {t : Token} {o : Operator} {l r : Node} (hk : t.kind = .operator o)
    (ho : o.operandType = .int) :
    (∃ x y, l.evaluate vars = .ok (.int x) ∧ r.evaluate vars = .ok (.int y) ∧
      intOperands (.operator o) (some (l.evaluate vars)) (some (r.evaluate vars)) = .ok (x, y)) ∨
    ∃ e, Answers vars (.binary t l r) (.error e) ∧
      intOperands (.operator o) (some (l.evaluate vars)) (some (r.evaluate vars)) = .error e := by
  have hwants : (TokenKind.operator o).operandType? = some .int := congrArg some ho
  simp only [intOperands, operandOf]
  cases hl : l.evaluate vars with
  | error e => exact .inr ⟨e, .passed (.inl rfl) hl, rfl⟩
  | ok x =>
  cases hr : r.evaluate vars with
  | error e => exact .inr ⟨e, .passed (.inr rfl) hr, rfl⟩
  | ok y =>
  cases x with
  | bool x =>
    exact .inr ⟨_, .fault (.mistyped hk hwants (.inl rfl) hl (by simp [Value.type])), rfl⟩
  | int x =>
  cases y with
  | bool y =>
    exact .inr ⟨_, .fault (.mistyped hk hwants (.inr rfl) hr (by simp [Value.type])), rfl⟩
  | int y => exact .inl ⟨x, y, rfl, rfl, rfl⟩

theorem answers_arithmetic {t : Token} {a : Arithmetic} {l r : Node}
    (hk : t.kind = .operator (.arithmetic a)) :
    Answers vars (.binary t l r) ((Node.binary t l r).evaluate vars) := by
  simp only [Node.evaluate, step, hk]
  rcases intOperands_cases (l := l) (r := r) hk rfl with ⟨x, y, hl, hr, hxy⟩ | ⟨e, hans, he⟩
  · rw [hxy]
    cases hn : Integer.fit? (a.exact x.toInt y.toInt) with
    | some n =>
      simp only [bind, Except.bind, hn]
      exact .operator hk hl hr (by simp [Operator.apply, hn])
    | none =>
      simp only [bind, Except.bind, hn]
      exact .fault (.overflow hk hl hr hn)
  · rw [he]
    exact hans

theorem answers_comparison {t : Token} {c : Comparison} {l r : Node}
    (hk : t.kind = .operator (.comparison c)) :
    Answers vars (.binary t l r) ((Node.binary t l r).evaluate vars) := by
  simp only [Node.evaluate, step, hk]
  rcases intOperands_cases (l := l) (r := r) hk rfl with ⟨x, y, hl, hr, hxy⟩ | ⟨e, hans, he⟩
  · rw [hxy]
    exact .operator hk hl hr rfl
  · rw [he]
    exact hans

/-- Of a connective's operands the left one is checked before the right one is looked at. -/
theorem answers_connective {t : Token} {c : Connective} {l r : Node}
    (hk : t.kind = .operator (.connective c)) :
    Answers vars (.binary t l r) ((Node.binary t l r).evaluate vars) := by
  simp only [Node.evaluate, step, hk, boolOperands, operandOf]
  cases hl : l.evaluate vars with
  | error e => exact .passed (.inl rfl) hl
  | ok x =>
  cases x with
  | int x => exact .fault (.mistyped hk rfl (.inl rfl) hl (by simp [Value.type]))
  | bool x =>
  cases hr : r.evaluate vars with
  | error e => exact .passed (.inr rfl) hr
  | ok y =>
  cases y with
  | int y => exact .fault (.mistyped hk rfl (.inr rfl) hr (by simp [Value.type]))
  | bool y => exact .operator hk hl hr rfl

/-- A regular node answers in one of these ways. -/
theorem answers_of_evaluate {n : Node} {r : Outcome} (h : n.Regular) (hr : n.evaluate vars = r) :
    Answers vars n r := by
  subst hr
  cases h with
  | leaf _ hk => exact answers_leaf hk
  | negation _ hk => exact answers_negation hk
  | @binary t o l r _ hk =>
    cases o with
    | arithmetic => exact answers_arithmetic hk
    | comparison => exact answers_comparison hk
    | connective => exact answers_connective hk

/-! ## The answers of a tree -/

/-- An error of a tree is the fault of one of its nodes. -/
theorem exists_fault {n : Node} {e : EvalError} (h : n.Regular) (he : n.evaluate vars = .error e) :
    ∃ x ∈ n.preorder, x.Regular ∧ Fault vars x e := by
  refine Node.exists_preorder (P := fun n => n.Regular ∧ n.evaluate vars = .error e)
    (fun {n} ⟨h, he⟩ => ?_) ⟨h, he⟩
  cases answers_of_evaluate h he with
  | passed hm hmv => exact .inr ⟨_, hm, h.operand hm, hmv⟩
  | fault hf => exact .inl ⟨h, hf⟩

theorem evaluate_ok_of_mem {n : Node} {v : Value} (h : n.Regular) (hv : n.evaluate vars = .ok v) :
    ∀ x ∈ n.preorder, x.Regular ∧ ∃ w, x.evaluate vars = .ok w := by
  refine Node.forall_preorder (P := fun n => n.Regular ∧ ∃ v, n.evaluate vars = .ok v)
    (fun {m n} ⟨h, v, hv⟩ hm => ⟨h.operand hm, ?_⟩) ⟨h, v, hv⟩
  cases answers_of_evaluate h hv with
  | number | identifier => exact absurd hm Node.not_operandOf_leaf
  | negation _ hn =>
    obtain rfl := Node.operandOf_unary.1 hm
    exact ⟨_, hn⟩
  | operator _ hl hr =>
    rcases Node.operandOf_binary.1 hm with rfl | rfl
    · exact ⟨_, hl⟩
    · exact ⟨_, hr⟩

end

end Condition
