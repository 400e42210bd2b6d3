/-
What the trees of parsed expressions look like.

In a regular tree every node has the operands that its kind wants (`Node.Regular`). A
negation takes all that follows it, so one can only be the last operand of an operator,
and the operators on the way down to it bind more and more tightly (`Node.Writable`).
The parser has no other trees: by induction over runs, an answer with a negation in it
leaves a lookahead without power, where no operator can take the answer as its left
operand (`RunR.answers`).
-/
import Condition.Proofs.Precedence
import Condition.Proofs.Spelling

namespace Condition

namespace Node

/-- Numbers and identifiers have no operand, a negation has one and an operator two. -/
inductive Regular : Node → Prop
  | leaf {t} : t.WellFormed → t.kind = .number ∨ t.kind = .identifier → Regular (.leaf t)
  | negation {t n} : t.WellFormed → t.kind = .not → Regular n → Regular (.unary t n)
  | binary {t o l r} : t.WellFormed → t.kind = .operator o → Regular l → Regular r →
      Regular (.binary t l r)

/-- `m` is the left or the right operand of `n`. -/
def OperandOf (m n : Node) : Prop := n.left? = some m ∨ n.right? = some m

theorem not_operandOf_leaf {m : Node} {t : Token} : ¬ m.OperandOf (leaf t) := by
  simp [OperandOf, left?, right?]

theorem operandOf_unary {m n : Node} {t : Token} : m.OperandOf (unary t n) ↔ m = n := by
  simp [OperandOf, left?, right?, eq_comm]

theorem operandOf_rightOnly {m n : Node} {t : Token} : m.OperandOf (rightOnly t n) ↔ m = n := by
  simp [OperandOf, left?, right?, eq_comm]

theorem operandOf_binary {m l r : Node} {t : Token} :
    m.OperandOf (binary t l r) ↔ m = l ∨ m = r := by
  simp [OperandOf, left?, right?, eq_comm]

theorem Regular.operand {m n : Node} (h : n.Regular) (hm : m.OperandOf n) : m.Regular := by
  cases h with
  | leaf => exact absurd hm not_operandOf_leaf
  | negation _ _ hn =>
    obtain rfl := operandOf_unary.1 hm
    exact hn
  | binary _ _ hl hr =>
    rcases operandOf_binary.1 hm with rfl | rfl
    · exact hl
    · exact hr

theorem mem_preorder_iff {x n : Node} :
    x ∈ n.preorder ↔ x = n ∨ ∃ m : Node, m.OperandOf n ∧ x ∈ m.preorder := by
  cases n <;> simp [preorder, OperandOf, left?, right?, or_and_right, exists_or]

/-- Induction on trees by their operands. -/
theorem operand_induction {P : Node → Prop}
    (h : ∀ n : Node, (∀ m : Node, m.OperandOf n → P m) → P n) (n : Node) : P n := by
  induction n with
  | leaf t => exact h _ fun m hm => absurd hm not_operandOf_leaf
  | unary t l ihl => exact h _ fun m hm => operandOf_unary.1 hm ▸ ihl
  | rightOnly t r ihr => exact h _ fun m hm => operandOf_rightOnly.1 hm ▸ ihr
  | binary t l r ihl ihr =>
    refine h _ fun m hm => ?_
    rcases operandOf_binary.1 hm with rfl | rfl
    · exact ihl
    · exact ihr

/-- What a node hands on to its operands is true of all nodes of its tree. -/
theorem forall_preorder {P : Node → Prop} (hstep : ∀ {m n : Node}, P n → m.OperandOf n → P m)
    {n : Node} (h : P n) : ∀ x ∈ n.preorder, P x := by
  induction n using operand_induction with
  | h n ih =>
    intro x hx
    rcases mem_preorder_iff.1 hx with rfl | ⟨m, hm, hx⟩
    · exact h
    · exact ih m hm (hstep h hm) x hx

/-- What a node has of its own or from an operand, some node of its tree has of its own. -/
theorem exists_preorder {P Q : Node → Prop}
    (hstep : ∀ {n : Node}, P n → Q n ∨ ∃ m : Node, m.OperandOf n ∧ P m) {n : Node} (h : P n) :
    ∃ x ∈ n.preorder, Q x := by
  induction n using operand_induction with
  | h n ih =>
    rcases hstep h with hq | ⟨m, hm, hp⟩
    · exact ⟨n, mem_preorder_iff.2 (.inl rfl), hq⟩
    · obtain ⟨x, hx, hq⟩ := ih m hm hp
      exact ⟨x, mem_preorder_iff.2 (.inr ⟨m, hm, hx⟩), hq⟩

/-- There is no negation in the tree. -/
def NotFree (n : Node) : Prop := ∀ x ∈ n.preorder, x.token.kind ≠ .not

instance (n : Node) : Decidable n.NotFree :=
  inferInstanceAs (Decidable (∀ x ∈ n.preorder, x.token.kind ≠ .not))

@[simp] theorem notFree_leaf {t : Token} : (leaf t).NotFree ↔ t.kind ≠ .not := by
  simp [NotFree, preorder, token]

@[simp] theorem notFree_unary {t : Token} {n : Node} :
    (unary t n).NotFree ↔ t.kind ≠ .not ∧ n.NotFree := by
  simp [NotFree, preorder, token]

@[simp] theorem notFree_binary {t : Token} {l r : Node} :
    (binary t l r).NotFree ↔ t.kind ≠ .not ∧ l.NotFree ∧ r.NotFree := by
  simp [NotFree, preorder, token, or_imp, forall_and]

/-- A tree that some text is read as: the left operand of an operator has no negation in
it, and a right operand that has one is a negation or binds more tightly. -/
inductive Writable : Node → Prop
  | leaf {t} : t.WellFormed → t.kind = .number ∨ t.kind = .identifier → Writable (.leaf t)
  | negation {t n} : t.WellFormed → t.kind = .not → Writable n → Writable (.unary t n)
  | binary {t o l r} : t.WellFormed → t.kind = .operator o → Writable l → l.NotFree →
      Writable r → r.NotFree ∨ r.token.kind = .not ∨ t.kind.power < r.token.kind.power →
      Writable (.binary t l r)

theorem Writable.regular {n : Node} (h : n.Writable) : n.Regular := by
  induction h with
  | leaf hwf hk => exact .leaf hwf hk
  | negation hwf hk _ ih => exact .negation hwf hk ih
  | binary hwf hk _ _ _ _ ihl ihr => exact .binary hwf hk ihl ihr

end Node

/-! ## Tokens that were scanned -/

theorem Scanner.wellFormed_of_next {s s' : Scanner} {t : Token} (h : s.next = (.ok t, s')) :
    t.WellFormed ∨ t.kind = .endOfInput := by
  have hr := s.nextR
  rw [h] at hr
  cases hr with
  | finish => exact .inr rfl
  | lexeme _ hwf => exact .inl hwf

namespace Parser

/-- The lookahead came from the scanner. -/
def Scanned (p : Parser) : Prop := p.lookahead.WellFormed ∨ p.lookahead.kind = .endOfInput

theorem scanned_ofString {input : String} {p : Parser} (h : ofString input = .ok p) :
    p.Scanned := by
  unfold ofString at h
  split at h
  · next t s hs => cases h; exact Scanner.wellFormed_of_next hs
  · cases h

theorem Scanned.advance {p p' : Parser} {r : Except ParseError Token} (hp : p.Scanned)
    (h : p.advance = (r, p')) : p'.Scanned := by
  unfold Parser.advance at h
  split at h
  · next t s hs => cases h; exact Scanner.wellFormed_of_next hs
  · cases h; exact hp

theorem Scanned.wellFormed {p p' : Parser} {t : Token} (hp : p.Scanned)
    (h : p.advance = (.ok t, p')) (ht : t.kind ≠ .endOfInput) : t.WellFormed := by
  rw [advance_lookahead h] at ht ⊢
  exact hp.resolve_right ht

/-! ## Answers -/

/-- A tree that has been read, and what is ahead of the parser then: behind a negation
there is nothing that goes on with an expression. -/
structure Reached (n : Node) (p : Parser) : Prop where
  scanned : p.Scanned
  writable : n.Writable
  ahead : n.NotFree ∨ p.lookahead.kind.power = 0

theorem Reached.notFree {n : Node} {p : Parser} (h : Reached n p)
    (hp : p.lookahead.kind.power ≠ 0) : n.NotFree :=
  h.ahead.resolve_right hp

/-- What a task can start from. -/
def Starts (p : Parser) : Task → Prop
  | .operand | .expression _ => p.Scanned
  | .rest _ left => Reached left p

/-- How the root of an answer binds: more tightly than the task asks for, unless the answer
is an operand or what the task started with. -/
def Binds : Task → Node → Prop
  | .operand, n => n.NotFree ∨ n.token.kind = .not
  | .expression m, n => n.NotFree ∨ n.token.kind = .not ∨ m < n.token.kind.power
  | .rest m left, n => n = left ∨ m < n.token.kind.power

theorem reached_binary {p : Parser} {t : Token} {o : Operator} {left right : Node}
    (ht : t.WellFormed) (hk : t.kind = .operator o) (hl : left.Writable) (hfree : left.NotFree)
    (hr : Reached right p) (hb : Binds (.expression o.power) right) :
    Reached (.binary t left right) p where
  scanned := hr.scanned
  writable := .binary ht hk hl hfree hr.writable (by rw [hk]; exact hb)
  ahead := hr.ahead.imp_left fun h => by simp [hk, hfree, h]

/-- What a run answers with can be written, and binds as its task asks for. A negation in
an answer has left a lookahead without power, so neither a group is closed behind it nor an
operator taken. -/
theorem RunR.answers {p p' : Parser} {task : Task} {r : Step Node} {n : Node} (h : RunR p task r)
    (hr : r = (.ok n, p')) (hp : Starts p task) : Reached n p' ∧ Binds task n := by
  induction h generalizing n p' with
  | stuck | negationFails | groupFails | groupOpen | noOperand | expressionFails | restStuck
  | operatorFails | noOperator => simp at hr
  | @atom p p₁ t ha hk =>
    cases hr
    have hwf := hp.wellFormed ha (by rcases hk with hk | hk <;> simp [hk])
    have hfree : (Node.leaf t).NotFree := by rcases hk with hk | hk <;> simp [hk]
    exact ⟨⟨hp.advance ha, .leaf hwf hk, .inl hfree⟩, .inl hfree⟩
  | @negation p p₁ p₂ t n ha hk hrun ih =>
    cases hr
    obtain ⟨hn, -⟩ := ih rfl (hp.advance ha)
    have hpow : p₂.lookahead.kind.power = 0 := Nat.le_zero.1 hrun.power_le
    exact ⟨⟨hn.scanned, .negation (hp.wellFormed ha (by simp [hk])) hk hn.writable, .inr hpow⟩,
      .inr hk⟩
  | @group p p₁ p₂ p₃ t n ha hk _ hm ih =>
    cases hr
    obtain ⟨hn, -⟩ := ih rfl (hp.advance ha)
    obtain ⟨hclose, hadv⟩ := matchAndAdvance_ok hm
    -- A negation would have left a lookahead without power.
    have hfree : n.NotFree := hn.notFree (by simp [hclose, TokenKind.power])
    exact ⟨⟨hn.scanned.advance hadv, hn.writable, .inl hfree⟩, .inl hfree⟩
  | expression _ _ ih₁ ih₂ =>
    obtain ⟨hn₀, hb₀⟩ := ih₁ rfl hp
    obtain ⟨hn, hb⟩ := ih₂ hr hn₀
    refine ⟨hn, ?_⟩
    rcases hb with rfl | hb
    · exact hb₀.imp_right .inl
    · exact .inr (.inr hb)
  | stop =>
    cases hr
    exact ⟨hp, .inl rfl⟩
  | @operator p p₁ p₂ m left t op right r hm ha hk _ _ ih₁ ih₂ =>
    obtain ⟨hright, hb⟩ := ih₁ rfl (hp.scanned.advance ha)
    have hwf := hp.scanned.wellFormed ha (by simp [hk])
    have hfree : left.NotFree := hp.notFree (by omega)
    obtain ⟨hn, hb'⟩ := ih₂ hr (reached_binary hwf hk hp.writable hfree hright hb)
    refine ⟨hn, .inr ?_⟩
    rcases hb' with rfl | hb'
    · show m < t.kind.power
      rwa [advance_lookahead ha]
    · exact hb'

theorem Scanned.writable {p p' : Parser} {m : Nat} {n : Node} (hp : p.Scanned)
    (h : p.parse m = (.ok n, p')) : n.Writable := by
  have hrun : RunR p (.expression m) (.ok n, p') := runR_iff.2 h
  exact (hrun.answers rfl hp).1.writable

end Parser

/-- Every tree that a text is read as can be written. -/
theorem writable_of_parseExpression {input : String} {n : Node}
    (h : parseExpression input = .ok n) : n.Writable := by
  unfold parseExpression at h
  split at h
  · cases h
  · next p hp =>
    have hparse : p.parse 0 = (.ok n, (p.parse 0).2) := by rw [← h]
    exact (Parser.scanned_ofString hp).writable hparse

end Condition
