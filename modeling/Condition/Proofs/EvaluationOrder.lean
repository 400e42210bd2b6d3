/-
Which error is reported when several nodes of a tree are at fault.

The rule is that of a walk in post-order: a node takes its own step once its operands have
values, and the error of the tree is that of the first node whose own step fails
(`Node.firstFault?`). Leaves, negations, arithmetic and comparisons keep to it. A connective
does so only from its left operand: an integer there is an error before its right operand is
looked at, whatever that would fail with (`Overtakes`). Main statement: `firstFault_iff`.
-/
import Condition.Proofs.NodeAnswers
import Mathlib.Data.List.Basic

namespace Condition

/-! ## The step of one node -/

/-- The type error that a node of this kind makes of the value of an operand. -/
def TokenKind.mistyped? (k : TokenKind) (v : Value) : Option EvalError :=
  match k.operandType? with
  | some τ => if v.type = τ then none else some (.typeMismatch k τ v)
  | none => none

/-- The overflow of an arithmetic operator between two integers. -/
def TokenKind.overflow? : TokenKind → Value → Value → Option EvalError
  | .operator (.arithmetic a), .int x, .int y =>
    match Integer.fit? (a.exact x.toInt y.toInt) with
    | some _ => none
    | none => some (.overflow (.operator (.arithmetic a)) x y)
  | _, _, _ => none

namespace Node

/-- All nodes of the tree, each behind its operands and the left operand before the right. -/
def postorder : Node → List Node
  | leaf t => [leaf t]
  | unary t l => l.postorder ++ [unary t l]
  | rightOnly t r => r.postorder ++ [rightOnly t r]
  | binary t l r => l.postorder ++ r.postorder ++ [binary t l r]

/-- The error of the node's own step. A number is read. An operator, when all its operands have
values, looks at the type of the left one, then at that of the right one, and is then applied. -/
def ownFault? (vars : Variables) : Node → Option EvalError
  | leaf t =>
    if t.kind = .number ∧ Integer.readDecimal? t.text = none then some (.invalidNumber t.text)
    else none
  | unary t l =>
    match l.evaluate vars with
    | .ok x => t.kind.mistyped? x
    | .error _ => none
  | rightOnly _ _ => none
  | binary t l r =>
    match l.evaluate vars, r.evaluate vars with
    | .ok x, .ok y => (t.kind.mistyped? x).or ((t.kind.mistyped? y).or (t.kind.overflow? x y))
    | _, _ => none

/-- The error of the first node, in post-order, whose own step fails. -/
def firstFault? (vars : Variables) (n : Node) : Option EvalError :=
  n.postorder.findSome? (ownFault? vars)

variable {vars : Variables}

theorem firstFault?_leaf {t : Token} : (leaf t).firstFault? vars = (leaf t).ownFault? vars := by
  simp [firstFault?, postorder]

theorem firstFault?_unary {t : Token} {l : Node} :
    (unary t l).firstFault? vars = (l.firstFault? vars).or ((unary t l).ownFault? vars) := by
  simp [firstFault?, postorder, List.findSome?_append]

theorem firstFault?_binary {t : Token} {l r : Node} :
    (binary t l r).firstFault? vars =
      (l.firstFault? vars).or ((r.firstFault? vars).or ((binary t l r).ownFault? vars)) := by
  simp [firstFault?, postorder, List.findSome?_append]

/-! ## What evaluation makes of the operands -/

/-- The outcome of the node is that of its own step. -/
def TakesStep (vars : Variables) (n : Node) : Prop :=
  ∀ e, n.evaluate vars = .error e ↔ n.ownFault? vars = some e

theorem takesStep_leaf {t : Token} (h : t.kind = .number ∨ t.kind = .identifier) :
    TakesStep vars (leaf t) := by
  intro e
  rcases h with hk | hk
  · cases hread : Integer.readDecimal? t.text <;> simp [evaluate, step, ownFault?, hk, hread]
  · simp [evaluate, step, ownFault?, hk]

theorem takesStep_unary {t : Token} {l : Node} {x : Value} (hk : t.kind = .not)
    (hl : l.evaluate vars = .ok x) : TakesStep vars (unary t l) := by
  intro e
  simp only [evaluate, step, ownFault?, hk, hl, operandOf, bind, Except.bind]
  cases x with
  | int i => simp [asBool, TokenKind.mistyped?, TokenKind.operandType?, Value.type]
  | bool b =>
    simp [asBool, TokenKind.mistyped?, TokenKind.operandType?, Value.type, pure, Except.pure]

theorem mistyped?_operator (o : Operator) (v : Value) :
    (TokenKind.operator o).mistyped? v =
      if v.type = o.operandType then none
      else some (.typeMismatch (.operator o) o.operandType v) := rfl

theorem takesStep_binary {t : Token} {o : Operator} {l r : Node} {x y : Value}
    (hk : t.kind = .operator o) (hl : l.evaluate vars = .ok x) (hr : r.evaluate vars = .ok y) :
    TakesStep vars (binary t l r) := by
  intro e
  simp only [ownFault?, hl, hr, hk, mistyped?_operator]
  cases o with
  | arithmetic a =>
    simp only [evaluate, step, hk, hl, hr, intOperands, operandOf, bind, Except.bind]
    cases x with
    | bool b => simp [asInt, Value.type, Operator.operandType]
    | int i =>
    cases y with
    | bool b => simp [asInt, Value.type, Operator.operandType]
    | int j =>
      cases hfit : Integer.fit? (a.exact i.toInt j.toInt) <;>
        simp [asInt, Value.type, Operator.operandType, TokenKind.overflow?, hfit, pure, Except.pure]
  | comparison c =>
    simp only [evaluate, step, hk, hl, hr, intOperands, operandOf, bind, Except.bind]
    cases x <;> cases y <;>
      simp [asInt, Value.type, Operator.operandType, TokenKind.overflow?, pure, Except.pure]
  | connective c =>
    simp only [evaluate, step, hk, hl, hr, boolOperands, operandOf, bind, Except.bind]
    cases x <;> cases y <;>
      simp [asBool, Value.type, Operator.operandType, TokenKind.overflow?, pure, Except.pure]

theorem evaluate_unary_of_error {t : Token} {l : Node} {e : EvalError} (hk : t.kind = .not)
    (hl : l.evaluate vars = .error e) : (unary t l).evaluate vars = .error e := by
  simp only [evaluate, step, hk, hl, operandOf, bind, Except.bind]

theorem evaluate_binary_of_left_error {t : Token} {o : Operator} {l r : Node} {e : EvalError}
    (hk : t.kind = .operator o) (hl : l.evaluate vars = .error e) :
    (binary t l r).evaluate vars = .error e := by
  cases o <;>
    simp only [evaluate, step, hk, hl, intOperands, boolOperands, operandOf, bind, Except.bind]

/-- The operator is a connective with an integer on its left. -/
def Refuses (t : Token) (x : Value) : Prop :=
  ∃ c i, t.kind = .operator (.connective c) ∧ x = .int i

/-- An error of the right operand is that of the operator, unless this is a connective with an
integer on its left. -/
theorem evaluate_binary_of_right_error {t : Token} {o : Operator} {l r : Node} {x : Value}
    {e : EvalError} (hk : t.kind = .operator o) (hl : l.evaluate vars = .ok x)
    (hx : ¬ Refuses t x) (hr : r.evaluate vars = .error e) :
    (binary t l r).evaluate vars = .error e := by
  cases o with
  | arithmetic | comparison =>
    simp only [evaluate, step, hk, hl, hr, intOperands, operandOf, bind, Except.bind]
  | connective c =>
    cases x with
    | int i => exact absurd ⟨c, i, hk, rfl⟩ hx
    | bool b =>
      simp only [evaluate, step, hk, hl, hr, boolOperands, operandOf, bind, Except.bind, asBool]

theorem evaluate_binary_of_integer {t : Token} {c : Connective} {l r : Node} {i : Int64}
    (hk : t.kind = .operator (.connective c)) (hl : l.evaluate vars = .ok (.int i)) :
    (binary t l r).evaluate vars = .error (.typeMismatch t.kind .bool (.int i)) := by
  simp only [evaluate, step, hk, hl, boolOperands, operandOf, bind, Except.bind, asBool]

end Node

/-! ## Where evaluation gets to -/

/-- Evaluation of the first tree comes to evaluate the second, which is one of its nodes. It goes
to a right operand when the left one has a value that the operator does not refuse. -/
inductive Visits (vars : Variables) : Node → Node → Prop
  | root {n} : Visits vars n n
  | operand {t l n} : Visits vars l n → Visits vars (.unary t l) n
  | left {t l r n} : Visits vars l n → Visits vars (.binary t l r) n
  | right {t l r n x} : l.evaluate vars = .ok x → ¬ Node.Refuses t x → Visits vars r n →
      Visits vars (.binary t l r) n

/-- The node is a connective with an integer on its left, which is the error `e`, and the first
node at fault in its right operand has the error `d`. -/
def Overtakes (vars : Variables) (n : Node) (e d : EvalError) : Prop :=
  ∃ t c l r i, n = .binary t l r ∧ t.kind = .operator (.connective c) ∧
    l.evaluate vars = .ok (.int i) ∧ e = .typeMismatch t.kind .bool (.int i) ∧
    r.firstFault? vars = some d

variable {vars : Variables}

theorem Node.TakesStep.value_or_fault {n : Node} (h : n.TakesStep vars) :
    (∃ v, n.evaluate vars = .ok v ∧ n.ownFault? vars = none) ∨
      ∃ e, n.evaluate vars = .error e ∧ n.ownFault? vars = some e := by
  cases he : n.evaluate vars with
  | error e => exact .inr ⟨e, rfl, (h e).1 he⟩
  | ok v =>
    refine .inl ⟨v, rfl, Option.eq_none_iff_forall_ne_some.2 fun e hf => ?_⟩
    rw [(h e).2 hf] at he
    cases he

/-- A tree has a value and no node at fault, or it has an error and a first node at fault; the
two errors are the same unless a connective on the way overtakes the node. -/
theorem evaluate_or_firstFault (vars : Variables) {n : Node} (h : n.Regular) :
    (∃ v, n.evaluate vars = .ok v ∧ n.firstFault? vars = none) ∨
      ∃ e d, n.evaluate vars = .error e ∧ n.firstFault? vars = some d ∧
        (d = e ∨ ∃ m, Visits vars n m ∧ Overtakes vars m e d) := by
  induction h with
  | leaf _ hk =>
    rw [Node.firstFault?_leaf]
    rcases (Node.takesStep_leaf hk).value_or_fault with h | ⟨e, he, hf⟩
    · exact .inl h
    · exact .inr ⟨e, e, he, hf, .inl rfl⟩
  | @negation t l _ hk _ ih =>
    rw [Node.firstFault?_unary]
    rcases ih with ⟨x, hx, hnone⟩ | ⟨e, d, he, hd, hsame⟩
    · rw [hnone, Option.none_or]
      rcases (Node.takesStep_unary hk hx).value_or_fault with h | ⟨e, he, hf⟩
      · exact .inl h
      · exact .inr ⟨e, e, he, hf, .inl rfl⟩
    · rw [hd, Option.some_or]
      exact .inr ⟨e, d, Node.evaluate_unary_of_error hk he, rfl,
        hsame.imp_right fun ⟨m, hm, ho⟩ => ⟨m, .operand hm, ho⟩⟩
  | @binary t o l r _ hk _ _ ihl ihr =>
    rw [Node.firstFault?_binary]
    rcases ihl with ⟨x, hx, hnone⟩ | ⟨e, d, he, hd, hsame⟩
    · rw [hnone, Option.none_or]
      rcases ihr with ⟨y, hy, hnone⟩ | ⟨e, d, he, hd, hsame⟩
      · rw [hnone, Option.none_or]
        rcases (Node.takesStep_binary hk hx hy).value_or_fault with h | ⟨e, he, hf⟩
        · exact .inl h
        · exact .inr ⟨e, e, he, hf, .inl rfl⟩
      · rw [hd, Option.some_or]
        -- Only here do the two orders part: the right operand is at fault, and it may be that
        -- evaluation does not come to it.
        by_cases hrefuses : Node.Refuses t x
        · obtain ⟨c, i, hk', rfl⟩ := hrefuses
          exact .inr ⟨_, d, Node.evaluate_binary_of_integer hk' hx, rfl,
            .inr ⟨_, .root, t, c, l, r, i, rfl, hk', hx, rfl, hd⟩⟩
        · exact .inr ⟨e, d, Node.evaluate_binary_of_right_error hk hx hrefuses he, rfl,
            hsame.imp_right fun ⟨m, hm, ho⟩ => ⟨m, .right hx hrefuses hm, ho⟩⟩
    · rw [hd, Option.some_or]
      exact .inr ⟨e, d, Node.evaluate_binary_of_left_error hk he, rfl,
        hsame.imp_right fun ⟨m, hm, ho⟩ => ⟨m, .left hm, ho⟩⟩

theorem firstFault?_of_evaluate {n : Node} {v : Value} (h : n.Regular)
    (hv : n.evaluate vars = .ok v) : n.firstFault? vars = none := by
  rcases evaluate_or_firstFault vars h with ⟨_, -, hnone⟩ | ⟨e, d, he, -, -⟩
  · exact hnone
  · rw [hv] at he
    cases he

theorem Visits.overtaken {n m : Node} {e d : EvalError} (h : Visits vars n m) (hn : n.Regular)
    (hm : Overtakes vars m e d) :
    n.evaluate vars = .error e ∧ n.firstFault? vars = some d := by
  induction h with
  | root =>
    obtain ⟨t, c, l, r, i, rfl, hk, hl, rfl, hd⟩ := hm
    refine ⟨Node.evaluate_binary_of_integer hk hl, ?_⟩
    rw [Node.firstFault?_binary, firstFault?_of_evaluate (hn.operand (.inl rfl)) hl, hd]
    rfl
  | operand _ ih =>
    cases hn with
    | negation _ hk hl =>
      obtain ⟨he, hd⟩ := ih hl hm
      exact ⟨Node.evaluate_unary_of_error hk he, by rw [Node.firstFault?_unary, hd]; rfl⟩
  | left _ ih =>
    cases hn with
    | binary _ hk hl _ =>
      obtain ⟨he, hd⟩ := ih hl hm
      exact ⟨Node.evaluate_binary_of_left_error hk he, by rw [Node.firstFault?_binary, hd]; rfl⟩
  | right hx hrefuses _ ih =>
    cases hn with
    | binary _ hk hl hr =>
      obtain ⟨he, hd⟩ := ih hr hm
      refine ⟨Node.evaluate_binary_of_right_error hk hx hrefuses he, ?_⟩
      rw [Node.firstFault?_binary, firstFault?_of_evaluate hl hx, hd]
      rfl

/-- **Errors come in post-order, but for an integer on the left of a connective.** A tree fails
only when the own step of one of its nodes does. Its error is that of the first such node in
post-order, unless evaluation comes to a connective whose left operand is an integer and in
whose right operand the first node at fault has another error: then it is the type error of the
connective, which has overtaken that node. -/
theorem firstFault_iff {input : String} {tree : Node} (h : parseExpression input = .ok tree)
    {e : EvalError} (he : tree.evaluate vars = .error e) :
    (∃ d, tree.firstFault? vars = some d ∧
      (d ≠ e → ∃ m, Visits vars tree m ∧ Overtakes vars m e d)) ∧
    (tree.firstFault? vars = some e ↔
      ¬ ∃ m e' d, Visits vars tree m ∧ Overtakes vars m e' d ∧ d ≠ e') := by
  have hreg := (writable_of_parseExpression h).regular
  obtain ⟨e', d, he', hd, hsame⟩ :
      ∃ e' d, tree.evaluate vars = .error e' ∧ tree.firstFault? vars = some d ∧
        (d = e' ∨ ∃ m, Visits vars tree m ∧ Overtakes vars m e' d) := by
    refine (evaluate_or_firstFault vars hreg).resolve_left ?_
    rintro ⟨v, hv, -⟩
    rw [hv] at he
    cases he
  rw [he] at he'
  cases he'
  refine ⟨⟨d, hd, hsame.resolve_left⟩, fun hfirst => ?_, fun hnone => ?_⟩
  · rintro ⟨m, e', d', hvisit, hover, hne⟩
    obtain ⟨heval, hfault⟩ := hvisit.overtaken hreg hover
    rw [he] at heval
    rw [hfirst] at hfault
    cases heval
    cases hfault
    exact hne rfl
  · rcases hsame with rfl | ⟨m, hvisit, hover⟩
    · exact hd
    · by_cases hde : d = e
      · rwa [hde] at hd
      · exact absurd ⟨m, e, d, hvisit, hover, hde⟩ hnone

/-- The operator that OR overtakes stands in its right operand; AND, whose left operand is a
truth value, overtakes nothing. -/
theorem firstFault_behind_disjunction :
    ∃ tree, parseExpression "0 < 1 AND (x OR x * x)" = .ok tree ∧
      tree.evaluate (.ofList [("x", 4294967296)]) =
        .error (.typeMismatch (.operator (.connective .or)) .bool (.int 4294967296)) ∧
      ∃ m, Visits (.ofList [("x", 4294967296)]) tree m ∧
        Overtakes (.ofList [("x", 4294967296)]) m
          (.typeMismatch (.operator (.connective .or)) .bool (.int 4294967296))
          (.overflow (.operator (.arithmetic .times)) 4294967296 4294967296) := by
  obtain ⟨tree, hparse, heval, hfirst⟩ :
      ∃ tree, parseExpression "0 < 1 AND (x OR x * x)" = .ok tree ∧
        tree.evaluate (.ofList [("x", 4294967296)]) =
          .error (.typeMismatch (.operator (.connective .or)) .bool (.int 4294967296)) ∧
        tree.firstFault? (.ofList [("x", 4294967296)]) =
          some (.overflow (.operator (.arithmetic .times)) 4294967296 4294967296) :=
    ⟨.binary ⟨.operator (.connective .and), "", 6⟩
      (.binary ⟨.operator (.comparison .lesser), "", 2⟩ (.leaf ⟨.number, "0", 0⟩)
        (.leaf ⟨.number, "1", 4⟩))
      (.binary ⟨.operator (.connective .or), "", 13⟩ (.leaf ⟨.identifier, "x", 11⟩)
        (.binary ⟨.operator (.arithmetic .times), "", 18⟩ (.leaf ⟨.identifier, "x", 16⟩)
          (.leaf ⟨.identifier, "x", 20⟩))),
      by decide +kernel, by decide +kernel, by decide +kernel⟩
  obtain ⟨⟨d, hd, hover⟩, -⟩ := firstFault_iff hparse heval
  rw [hfirst] at hd
  cases hd
  exact ⟨tree, hparse, heval, hover (by simp)⟩

/-- The sum is the first node at fault, but AND does not come to look at it. -/
theorem firstFault_overtaken :
    ∃ tree e d, parseExpression "1 AND 9223372036854775807 + 1" = .ok tree ∧
      tree.evaluate .empty = .error e ∧ tree.firstFault? .empty = some d ∧ d ≠ e ∧
      e = .typeMismatch (.operator (.connective .and)) .bool (.int 1) ∧
      d = .overflow (.operator (.arithmetic .plus)) 9223372036854775807 1 := by
  have hparse : parseExpression "1 AND 9223372036854775807 + 1" =
      .ok (.binary ⟨.operator (.connective .and), "", 2⟩ (.leaf ⟨.number, "1", 0⟩)
        (.binary ⟨.operator (.arithmetic .plus), "", 26⟩
          (.leaf ⟨.number, "9223372036854775807", 6⟩) (.leaf ⟨.number, "1", 28⟩))) := by
    decide +kernel
  exact ⟨_, _, _, hparse, by decide +kernel, by decide +kernel, by simp, rfl, rfl⟩

end Condition
