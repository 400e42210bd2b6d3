/-
Evaluation and exact arithmetic.

The exact value of a tree is that over the integers of any size (`Node.exactValue?`). It has
tables of its own for what the operators do; that the evaluator's functions do the same is shown
once for each class of operators (`Arithmetic.exact_eq_unbounded`, `Comparison.holds_eq_unbounded`,
`Connective.holds_eq_table`). Evaluation answers with the exact value when all numbers on the way
are in range, and with an error otherwise, never with another value. Main statement:
`evaluate_exact`.
-/
import Condition.Proofs.Numerals
import Condition.Proofs.Typing
import Mathlib.Data.Nat.Digits.Defs

namespace Condition

/-- The integers of 64 bits. -/
def InRange (n : Int) : Prop := -2 ^ 63 ≤ n ∧ n ≤ 2 ^ 63 - 1

instance (n : Int) : Decidable (InRange n) :=
  inferInstanceAs (Decidable (-2 ^ 63 ≤ n ∧ n ≤ 2 ^ 63 - 1))

/-- The number that decimal digits write. -/
def decimal (text : String) : Nat :=
  Nat.ofDigits 10 (text.toList.reverse.map fun c => c.toNat - '0'.toNat)

/-! ## Numbers -/

namespace Integer

theorem fit?_eq_none_iff {n : Int} : fit? n = none ↔ ¬ InRange n := by
  have hmin : Int64.minValue.toInt = -2 ^ 63 := by decide
  have hmax : Int64.maxValue.toInt = 2 ^ 63 - 1 := by decide
  simp only [fit?, hmin, hmax, InRange]
  split <;> simp_all

theorem inRange_of_fit? {n : Int} {i : Int64} (h : fit? n = some i) : InRange n := by
  refine Decidable.byContradiction fun hout => ?_
  rw [fit?_eq_none_iff.2 hout] at h
  cases h

theorem decimal_eq_ofDigitChars (text : String) :
    decimal text = Nat.ofDigitChars 10 text.toList 0 := by
  rw [decimal]
  induction text.toList with
  | nil => rfl
  | cons c cs ih =>
    have hhead : Nat.ofDigitChars 10 cs (10 * 0 + (c.toNat - '0'.toNat)) = _ :=
      Nat.ofDigitChars_eq_ofDigitChars_zero
    rw [List.reverse_cons, List.map_append, Nat.ofDigits_append, ih, List.map_singleton,
      Nat.ofDigits_singleton, List.length_map, List.length_reverse, Nat.ofDigitChars_cons, hhead]
    ring

theorem readDecimal?_of_isDigit {text : String} (hne : text ≠ "")
    (h : ∀ c ∈ text.toList, c.isDigit = true) : readDecimal? text = fit? (decimal text) := by
  rw [readDecimal?, read?, signed?_of_isDigit (by simpa using hne) h, Option.bind_some,
    decimal_eq_ofDigitChars]

theorem readDecimal?_of_number {t : Token} (h : t.WellFormed) (hk : t.kind = .number) :
    readDecimal? t.text = fit? (decimal t.text) := by
  rw [Token.WellFormed, hk] at h
  exact readDecimal?_of_isDigit h.1 h.2

end Integer

/-! ## Exact values -/

/-- A truth value, or an integer of any size. -/
inductive Exact
  | int (n : Int)
  | bool (b : Bool)
deriving DecidableEq

/-- The value, its integer taken out of its 64 bits. -/
def Value.exact : Value → Exact
  | int n => .int n.toInt
  | bool b => .bool b

/-- The operation on integers of any size. -/
def Arithmetic.unbounded : Arithmetic → Int → Int → Int
  | plus, x, y => x + y
  | minus, x, y => x - y
  | times, x, y => x * y

/-- The comparison of integers of any size. -/
def Comparison.unbounded : Comparison → Int → Int → Bool
  | greater, x, y => x > y
  | greaterEqual, x, y => x ≥ y
  | lesser, x, y => x < y
  | lesserEqual, x, y => x ≤ y
  | equal, x, y => x = y
  | notEqual, x, y => x ≠ y

/-- The truth table. -/
def Connective.table : Connective → Bool → Bool → Bool
  | and, true, true => true
  | and, true, false => false
  | and, false, true => false
  | and, false, false => false
  | or, true, true => true
  | or, true, false => true
  | or, false, true => true
  | or, false, false => false

/-- What the operator makes of two values over the unbounded integers, if they have its type. -/
def Operator.exactValue? : Operator → Exact → Exact → Option Exact
  | .arithmetic a, .int x, .int y => some (.int (a.unbounded x y))
  | .comparison c, .int x, .int y => some (.bool (c.unbounded x y))
  | .connective c, .bool x, .bool y => some (.bool (c.table x y))
  | _, _, _ => none

/-- The value of the tree over the unbounded integers, in which a name that is not set is 0,
if its operands are of the types that are wanted. -/
def Node.exactValue? (vars : Variables) : Node → Option Exact
  | .leaf t =>
    match t.kind with
    | .number => some (.int (decimal t.text))
    | .identifier => some (.int (((vars.get? t.text).map Int64.toInt).getD 0))
    | _ => none
  | .unary t n =>
    match t.kind, n.exactValue? vars with
    | .not, some (.bool b) => some (.bool !b)
    | _, _ => none
  | .rightOnly _ _ => none
  | .binary t l r =>
    match t.kind with
    | .operator o => do o.exactValue? (← l.exactValue? vars) (← r.exactValue? vars)
    | _ => none

theorem Variables.toInt_value (vars : Variables) (name : String) :
    (vars.value name).toInt = ((vars.get? name).map Int64.toInt).getD 0 := by
  rw [value]
  cases vars.get? name <;> rfl

theorem Arithmetic.exact_eq_unbounded (a : Arithmetic) (x y : Int) :
    a.exact x y = a.unbounded x y := by
  cases a <;> rfl

theorem Comparison.holds_eq_unbounded (c : Comparison) (x y : Int64) :
    c.holds x y = c.unbounded x.toInt y.toInt := by
  cases c <;>
    simp [holds, unbounded, Int64.lt_iff_toInt_lt, Int64.le_iff_toInt_le, Int64.toInt_inj]

theorem Connective.holds_eq_table (c : Connective) (x y : Bool) : c.holds x y = c.table x y := by
  cases c <;> cases x <;> cases y <;> rfl

theorem Operator.exactValue?_of_apply {o : Operator} {x y v : Value} (h : o.apply x y = some v) :
    o.exactValue? x.exact y.exact = some v.exact := by
  unfold apply at h
  split at h
  · obtain ⟨n, hn, rfl⟩ := Option.map_eq_some_iff.1 h
    simp only [exactValue?, Value.exact, ← Arithmetic.exact_eq_unbounded,
      Integer.fit?_eq_some_iff.1 hn]
  · cases h
    simp only [exactValue?, Value.exact, Comparison.holds_eq_unbounded]
  · cases h
    simp only [exactValue?, Value.exact, Connective.holds_eq_table]
  · cases h

/-- A value that is found is the exact one. -/
theorem exactValue?_of_evaluate {vars : Variables} {n : Node} {v : Value} (h : n.Regular)
    (hv : n.evaluate vars = .ok v) : n.exactValue? vars = some v.exact := by
  induction n using Node.operand_induction generalizing v with
  | h n ih =>
    cases answers_of_evaluate h hv with
    | number hk hread =>
      cases h with
      | leaf hwf =>
        rw [Integer.readDecimal?_of_number hwf hk, Integer.fit?_eq_some_iff] at hread
        simp only [Node.exactValue?, hk, Value.exact, hread]
    | identifier hk => simp only [Node.exactValue?, hk, Value.exact, Variables.toInt_value]
    | negation hk hn =>
      have hb := ih _ (.inl rfl) (h.operand (.inl rfl)) hn
      simp only [Node.exactValue?, hk, hb, Value.exact]
    | operator hk hl hr happly =>
      have hx := ih _ (.inl rfl) (h.operand (.inl rfl)) hl
      have hy := ih _ (.inr rfl) (h.operand (.inr rfl)) hr
      simp only [Node.exactValue?, hk, hx, hy]
      exact Operator.exactValue?_of_apply happly

/-! ## Numbers in range -/

/-- Every number in the tree is one of 64 bits. -/
def LiteralsFit (n : Node) : Prop :=
  ∀ t, .leaf t ∈ n.preorder → t.kind = .number → (decimal t.text : Int) ≤ 2 ^ 63 - 1

/-- Every arithmetic operator in the tree has exact operands, and an exact result in range. -/
def ResultsFit (vars : Variables) (n : Node) : Prop :=
  ∀ t l r a, .binary t l r ∈ n.preorder → t.kind = .operator (.arithmetic a) →
    ∃ x y, l.exactValue? vars = some (.int x) ∧ r.exactValue? vars = some (.int y) ∧
      InRange (a.unbounded x y)

theorem literalsFit_of_evaluate {vars : Variables} {n : Node} {v : Value} (h : n.Regular)
    (hv : n.evaluate vars = .ok v) : LiteralsFit n := by
  intro t ht hk
  obtain ⟨hreg, w, hw⟩ := evaluate_ok_of_mem h hv _ ht
  cases answers_of_evaluate hreg hw with
  | number _ hread =>
    cases hreg with
    | leaf hwf =>
      rw [Integer.readDecimal?_of_number hwf hk] at hread
      exact (Integer.inRange_of_fit? hread).2
  | identifier hk' => rw [hk] at hk'; cases hk'

theorem Operator.inRange_of_apply {a : Arithmetic} {x y v : Value}
    (h : (Operator.arithmetic a).apply x y = some v) :
    ∃ i j : Int64, x = .int i ∧ y = .int j ∧ InRange (a.unbounded i.toInt j.toInt) := by
  cases x with
  | bool => cases h
  | int i =>
  cases y with
  | bool => cases h
  | int j =>
    obtain ⟨n, hn, -⟩ := Option.map_eq_some_iff.1 h
    rw [Arithmetic.exact_eq_unbounded] at hn
    exact ⟨i, j, rfl, rfl, Integer.inRange_of_fit? hn⟩

theorem resultsFit_of_evaluate {vars : Variables} {n : Node} {v : Value} (h : n.Regular)
    (hv : n.evaluate vars = .ok v) : ResultsFit vars n := by
  intro t l r a hmem hk
  obtain ⟨hreg, w, hw⟩ := evaluate_ok_of_mem h hv _ hmem
  cases answers_of_evaluate hreg hw with
  | operator hk' hl hr happly =>
    rw [hk] at hk'
    cases hk'
    obtain ⟨i, j, rfl, rfl, hin⟩ := Operator.inRange_of_apply happly
    exact ⟨_, _, exactValue?_of_evaluate (hreg.operand (.inl rfl)) hl,
      exactValue?_of_evaluate (hreg.operand (.inr rfl)) hr, hin⟩

theorem LiteralsFit.not_invalid {vars : Variables} {n : Node} {text : String} (h : n.Regular)
    (hn : LiteralsFit n) : n.evaluate vars ≠ .error (.invalidNumber text) := by
  intro he
  obtain ⟨x, hx, hreg, hfault⟩ := exists_fault h he
  cases hfault with
  | @literal t hk hread =>
    cases hreg with
    | leaf hwf =>
      rw [Integer.readDecimal?_of_number hwf hk, Integer.fit?_eq_none_iff] at hread
      -- A literal has no sign, so only the upper bound can refuse it.
      have hpos : (0 : Int) ≤ decimal t.text := Int.natCast_nonneg _
      exact hread ⟨Int.le_trans (by decide) hpos, hn t hx hk⟩

/-- An overflow names the exact operands of an operator in the tree whose exact result is
out of range. -/
theorem exact_of_overflow {vars : Variables} {n : Node} {k : TokenKind} {x y : Int64}
    (h : n.Regular) (he : n.evaluate vars = .error (.overflow k x y)) :
    ∃ t l r a, .binary t l r ∈ n.preorder ∧ t.kind = k ∧ k = .operator (.arithmetic a) ∧
      l.exactValue? vars = some (.int x.toInt) ∧ r.exactValue? vars = some (.int y.toInt) ∧
      ¬ InRange (a.unbounded x.toInt y.toInt) := by
  obtain ⟨m, hm, hreg, hfault⟩ := exists_fault h he
  cases hfault with
  | overflow hk hl hr hnone =>
    rw [Arithmetic.exact_eq_unbounded] at hnone
    exact ⟨_, _, _, _, hm, hk, rfl, exactValue?_of_evaluate (hreg.operand (.inl rfl)) hl,
      exactValue?_of_evaluate (hreg.operand (.inr rfl)) hr, Integer.fit?_eq_none_iff.1 hnone⟩

theorem ResultsFit.not_overflow {vars : Variables} {n : Node} {k : TokenKind} {x y : Int64}
    (h : n.Regular) (hn : ResultsFit vars n) :
    n.evaluate vars ≠ .error (.overflow k x y) := by
  intro he
  obtain ⟨t, l, r, a, hmem, rfl, hk, hl, hr, hout⟩ := exact_of_overflow h he
  obtain ⟨i, j, hi, hj, hin⟩ := hn t l r a hmem hk
  rw [hl] at hi
  rw [hr] at hj
  cases hi
  cases hj
  exact hout hin

theorem exists_value {vars : Variables} {n : Node} {τ : ValueType} (h : n.Regular)
    (hτ : HasType n τ) (hlit : LiteralsFit n) (hres : ResultsFit vars n) :
    ∃ v, n.evaluate vars = .ok v := by
  cases he : n.evaluate vars with
  | ok v => exact ⟨v, rfl⟩
  | error e =>
    obtain ⟨x, -, -, hfault⟩ := exists_fault h he
    cases hfault with
    | literal => exact absurd he (hlit.not_invalid h)
    | overflow => exact absurd he (hres.not_overflow h)
    | mistyped => exact absurd he (hτ.not_mistyped h)

/-- **Evaluation is exact.** A tree has a value just when it has a type, its numbers are in
range and so is the exact result of each arithmetic operator in it; the value is then the
exact one. An overflow names the exact operands of an operator in the tree whose exact
result is out of range. -/
theorem evaluate_exact {input : String} {tree : Node} (h : parseExpression input = .ok tree)
    (vars : Variables) :
    ((∃ v, tree.evaluate vars = .ok v) ↔
      (∃ τ, HasType tree τ) ∧ LiteralsFit tree ∧ ResultsFit vars tree) ∧
    (∀ v, tree.evaluate vars = .ok v → tree.exactValue? vars = some v.exact) ∧
    ∀ k x y, tree.evaluate vars = .error (.overflow k x y) →
      ∃ t l r a, .binary t l r ∈ tree.preorder ∧ t.kind = k ∧ k = .operator (.arithmetic a) ∧
        l.exactValue? vars = some (.int x.toInt) ∧ r.exactValue? vars = some (.int y.toInt) ∧
        ¬ InRange (a.unbounded x.toInt y.toInt) := by
  have hreg := (writable_of_parseExpression h).regular
  refine ⟨⟨fun ⟨v, hv⟩ => ?_, fun ⟨⟨τ, hτ⟩, hlit, hres⟩ => exists_value hreg hτ hlit hres⟩,
    fun v => exactValue?_of_evaluate hreg, fun k x y => exact_of_overflow hreg⟩
  exact ⟨⟨_, hasType_of_evaluate hreg hv⟩, literalsFit_of_evaluate hreg hv,
    resultsFit_of_evaluate hreg hv⟩

/-- An overflow on the way is an error although the exact value is in range. -/
theorem evaluate_overflow_inside :
    ∃ tree, parseExpression "9223372036854775807 + x - 2" = .ok tree ∧
      tree.exactValue? (.ofList [("x", 1)]) = some (.int 9223372036854775806) ∧
      tree.evaluate (.ofList [("x", 1)]) =
        .error (.overflow (.operator (.arithmetic .plus)) 9223372036854775807 1) ∧
      ∃ t l r a, .binary t l r ∈ tree.preorder ∧ t.kind = .operator (.arithmetic .plus) ∧
        .operator (.arithmetic .plus) = TokenKind.operator (.arithmetic a) ∧
        l.exactValue? (.ofList [("x", 1)]) = some (.int (9223372036854775807 : Int64).toInt) ∧
        r.exactValue? (.ofList [("x", 1)]) = some (.int (1 : Int64).toInt) ∧
        ¬ InRange (a.unbounded (9223372036854775807 : Int64).toInt (1 : Int64).toInt) := by
  have hparse : parseExpression "9223372036854775807 + x - 2" =
      .ok (.binary ⟨.operator (.arithmetic .minus), "", 24⟩
        (.binary ⟨.operator (.arithmetic .plus), "", 20⟩
          (.leaf ⟨.number, "9223372036854775807", 0⟩) (.leaf ⟨.identifier, "x", 22⟩))
        (.leaf ⟨.number, "2", 26⟩)) := by decide +kernel
  refine ⟨_, hparse, by decide +kernel, ?_⟩
  suffices he : _ from ⟨he, (evaluate_exact hparse _).2.2 _ _ _ he⟩
  decide +kernel

end Condition
