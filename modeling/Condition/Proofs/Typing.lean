/-
Types of expressions, given by their shape alone, and what they say of evaluation.

A value has the type of its tree (`hasType_of_evaluate`), whatever the variables, so a
tree without a type has no value, and in a tree with a type no operand has a value of
another type than is wanted. Main statement: `typing_decides`.
-/
import Condition.Proofs.NodeAnswers
import Mathlib.Data.List.Basic

namespace Condition

/-- The type of the values that the operator makes. -/
def Operator.resultType : Operator → ValueType
  | .arithmetic _ => .int
  | .comparison _ | .connective _ => .bool

/-- The static type of a tree, which asks for no variables. -/
inductive HasType : Node → ValueType → Prop
  | number {t} : t.kind = .number → HasType (.leaf t) .int
  | identifier {t} : t.kind = .identifier → HasType (.leaf t) .int
  | negation {t n} : t.kind = .not → HasType n .bool → HasType (.unary t n) .bool
  | operator {t o l r} : t.kind = .operator o → HasType l o.operandType →
      HasType r o.operandType → HasType (.binary t l r) o.resultType

theorem HasType.unique {n : Node} {τ σ : ValueType} (h : HasType n τ) (h' : HasType n σ) :
    τ = σ := by
  cases h with
  | number | identifier | negation => cases h' <;> rfl
  | operator hk =>
    cases h' with
    | operator hk' =>
      rw [hk] at hk'
      cases hk'
      rfl

theorem HasType.operand {m n : Node} {τ σ : ValueType} (h : HasType n τ) (hm : m.OperandOf n)
    (hσ : n.token.kind.operandType? = some σ) : HasType m σ := by
  cases h with
  | number | identifier => exact absurd hm Node.not_operandOf_leaf
  | negation hk hn =>
    obtain rfl := Node.operandOf_unary.1 hm
    rw [Node.token, hk] at hσ
    cases hσ
    exact hn
  | operator hk hl hr =>
    rw [Node.token, hk] at hσ
    cases hσ
    rcases Node.operandOf_binary.1 hm with rfl | rfl
    · exact hl
    · exact hr

theorem HasType.exists_operand {m n : Node} {τ : ValueType} (h : HasType n τ)
    (hm : m.OperandOf n) : ∃ σ, HasType m σ := by
  obtain ⟨σ, hσ⟩ : ∃ σ, n.token.kind.operandType? = some σ := by
    cases h with
    | number | identifier => exact absurd hm Node.not_operandOf_leaf
    | negation hk => exact ⟨.bool, by rw [Node.token, hk]; rfl⟩
    | operator hk => exact ⟨_, by rw [Node.token, hk]; rfl⟩
  exact ⟨σ, h.operand hm hσ⟩

theorem Operator.types_of_apply {o : Operator} {x y v : Value} (h : o.apply x y = some v) :
    x.type = o.operandType ∧ y.type = o.operandType ∧ v.type = o.resultType := by
  unfold apply at h
  split at h
  · obtain ⟨n, -, rfl⟩ := Option.map_eq_some_iff.1 h
    exact ⟨rfl, rfl, rfl⟩
  · cases h; exact ⟨rfl, rfl, rfl⟩
  · cases h; exact ⟨rfl, rfl, rfl⟩
  · cases h

/-- A value has the type of its tree. -/
theorem hasType_of_evaluate {vars : Variables} {n : Node} {v : Value} (h : n.Regular)
    (hv : n.evaluate vars = .ok v) : HasType n v.type := by
  induction n using Node.operand_induction generalizing v with
  | h n ih =>
    cases answers_of_evaluate h hv with
    | number hk => exact .number hk
    | identifier hk => exact .identifier hk
    | negation hk hn => exact .negation hk (ih _ (.inl rfl) (h.operand (.inl rfl)) hn)
    | operator hk hl hr happly =>
      obtain ⟨hx, hy, hv⟩ := Operator.types_of_apply happly
      rw [hv]
      exact .operator hk (hx ▸ ih _ (.inl rfl) (h.operand (.inl rfl)) hl)
        (hy ▸ ih _ (.inr rfl) (h.operand (.inr rfl)) hr)

theorem HasType.not_mistyped {vars : Variables} {n : Node} {τ σ : ValueType} {k : TokenKind}
    {v : Value} (h : n.Regular) (hn : HasType n τ) :
    n.evaluate vars ≠ .error (.typeMismatch k σ v) := by
  intro he
  obtain ⟨x, hx, hreg, hfault⟩ := exists_fault h he
  obtain ⟨ρ, hxt⟩ := Node.forall_preorder (P := fun n => ∃ τ, HasType n τ)
    (fun ⟨_, h⟩ hm => h.exists_operand hm) ⟨τ, hn⟩ x hx
  cases hfault with
  | mistyped hk hσ hm hv hne =>
    exact hne ((hasType_of_evaluate (hreg.operand hm) hv).unique (hxt.operand hm (hk ▸ hσ)))

/-- **Types decide type errors.** With a type, a tree has a value of that type or fails for
the size of a number, whatever the variables; without one it always fails. And where a
type error is reported, a node of that operator has an operand of the type that was found,
which is not the one expected. -/
theorem typing_decides {input : String} {tree : Node} (h : parseExpression input = .ok tree) :
    (∀ τ, HasType tree τ → ∀ vars,
      (∃ v, tree.evaluate vars = .ok v ∧ v.type = τ) ∨
        (∃ k x y, tree.evaluate vars = .error (.overflow k x y)) ∨
        ∃ text, tree.evaluate vars = .error (.invalidNumber text)) ∧
    ((¬ ∃ τ, HasType tree τ) → ∀ vars, ∃ e, tree.evaluate vars = .error e) ∧
    ∀ vars k τ v, tree.evaluate vars = .error (.typeMismatch k τ v) →
      ∃ n ∈ tree.preorder, n.token.kind = k ∧
        ∃ m : Node, m.OperandOf n ∧ HasType m v.type ∧ v.type ≠ τ := by
  have hreg := (writable_of_parseExpression h).regular
  refine ⟨fun τ hτ vars => ?_, fun hnone vars => ?_, fun vars k τ v he => ?_⟩
  · cases he : tree.evaluate vars with
    | ok v => exact .inl ⟨v, rfl, (hasType_of_evaluate hreg he).unique hτ⟩
    | error e =>
      obtain ⟨x, -, -, hfault⟩ := exists_fault hreg he
      cases hfault with
      | literal => exact .inr (.inr ⟨_, rfl⟩)
      | overflow => exact .inr (.inl ⟨_, _, _, rfl⟩)
      | mistyped => exact absurd he (hτ.not_mistyped hreg)
  · cases he : tree.evaluate vars with
    | ok v => exact absurd ⟨_, hasType_of_evaluate hreg he⟩ hnone
    | error e => exact ⟨e, rfl⟩
  · obtain ⟨x, hx, hxreg, hfault⟩ := exists_fault hreg he
    cases hfault with
    | mistyped hk _ hm hv hne =>
      exact ⟨x, hx, hk, _, hm, hasType_of_evaluate (hxreg.operand hm) hv, hne⟩

/-- An integer beside OR is an error although the other side holds already. -/
theorem typing_integer_beside_or :
    ∃ tree, parseExpression "1 < 2 OR x" = .ok tree ∧ (¬ ∃ τ, HasType tree τ) ∧
      ∀ vars, ∃ e, tree.evaluate vars = .error e := by
  have hparse : parseExpression "1 < 2 OR x" =
      .ok (.binary ⟨.operator (.connective .or), "", 6⟩
        (.binary ⟨.operator (.comparison .lesser), "", 2⟩ (.leaf ⟨.number, "1", 0⟩)
          (.leaf ⟨.number, "2", 4⟩))
        (.leaf ⟨.identifier, "x", 9⟩)) := by decide +kernel
  suffices hnone : ¬ ∃ τ, HasType _ τ from ⟨_, hparse, hnone, (typing_decides hparse).2.1 hnone⟩
  rintro ⟨τ, h⟩
  have hx := h.operand (.inr rfl) rfl
  cases hx

end Condition
