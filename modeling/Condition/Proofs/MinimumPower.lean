/-
What the minimum power has to do with what is read.

A run with the greater of two powers stops somewhere on the way of the run with the lesser one,
and the latter goes on from there as if it had come there by itself (`parse_eq_resume`): the two
take the same operators with the same operands until the first stops, and an error on that way is
met by both. Going on makes what has been read the left operand of what follows, any number of
times (`RunR.onLeftSpine`). Main statement: `parse_lower`.
-/
import Condition.Proofs.LexicalErrors

namespace Condition

/-- The first tree is the second, or comes up on the way down the left operands of its operators. -/
inductive Node.OnLeftSpine : Node → Node → Prop
  | refl {n} : OnLeftSpine n n
  | left {n t l r} : OnLeftSpine n l → OnLeftSpine n (.binary t l r)

theorem Node.OnLeftSpine.trans {m n k : Node} (h : m.OnLeftSpine n) (h' : n.OnLeftSpine k) :
    m.OnLeftSpine k := by
  induction h' with
  | refl => exact h
  | left _ ih => exact .left ih

namespace Parser

/-! ## Going on with a lesser power -/

/-- Goes on with what a step has read. A step that has failed stays as it is. -/
def resume (m : Nat) : Step Node → Step Node
  | (.error e, p) => (.error e, p)
  | (.ok n, p) => p.extend m n

theorem extend_eq_resume (p : Parser) {m₁ m₂ : Nat} (hm : m₁ ≤ m₂) (left : Node) :
    p.extend m₁ left = resume m₁ (p.extend m₂ left) := by
  have hrun := runR_perform p (.rest m₂ left)
  rw [perform] at hrun
  generalize p.extend m₂ left = r at hrun
  generalize htask : Task.rest m₂ left = task at hrun
  induction hrun generalizing left with
  | stuck | atom | negation | negationFails | group | groupFails | groupOpen | noOperand
  | expression | expressionFails => cases htask
  | stop =>
    cases htask
    rfl
  | restStuck hlt ha =>
    cases htask
    exact (RunR.restStuck (by omega) ha).perform_eq
  | @operator p p₁ p₂ m left t op right r hlt ha hk hright _ _ ih =>
    cases htask
    have hrest := runR_perform p₂ (.rest m₁ (.binary t left right))
    have hsame : p.extend m₁ left = p₂.extend m₁ (.binary t left right) :=
      (RunR.operator (by omega) ha hk hright hrest).perform_eq
    rw [hsame]
    exact ih _ rfl
  | operatorFails hlt ha hk hright =>
    cases htask
    exact (RunR.operatorFails (by omega) ha hk hright).perform_eq
  | noOperator hlt ha hk =>
    cases htask
    exact (RunR.noOperator (by omega) ha hk).perform_eq

/-- An expression is read with the greater power first, and then the rest of it. -/
theorem parse_eq_resume (p : Parser) {m₁ m₂ : Nat} (hm : m₁ ≤ m₂) :
    p.parse m₁ = resume m₁ (p.parse m₂) := by
  rw [parse_eq_operand, parse_eq_operand]
  rcases p.operand with ⟨e | n, p'⟩
  · rfl
  · exact extend_eq_resume p' hm n

/-- What a run starts with is on the left of what it answers with. -/
theorem RunR.onLeftSpine {p p' : Parser} {m : Nat} {left n : Node}
    (h : RunR p (.rest m left) (.ok n, p')) : left.OnLeftSpine n := by
  generalize htask : Task.rest m left = task at h
  generalize hr : (Except.ok n, p') = r at h
  induction h generalizing left with
  | stuck | negationFails | groupFails | groupOpen | noOperand | expressionFails | restStuck
  | operatorFails | noOperator => cases hr
  | atom | negation | group | expression => cases htask
  | stop =>
    cases htask
    cases hr
    exact .refl
  | operator _ _ _ _ _ _ ih =>
    cases htask
    exact (Node.OnLeftSpine.left .refl).trans (ih rfl hr)

/-- **A greater power stops earlier.** Where reading with the greater of two powers fails, reading
with the lesser one fails alike. Where both succeed, the tree read with the greater power is the
other one or comes up on the way down its left operands, and the tokens taken for it are the first
of those taken for the other. -/
theorem parse_lower (p : Parser) {m₁ m₂ : Nat} (hm : m₁ ≤ m₂) :
    (∀ e p₂, p.parse m₂ = (.error e, p₂) → p.parse m₁ = (.error e, p₂)) ∧
    ∀ n₂ p₂ n₁ p₁, p.parse m₂ = (.ok n₂, p₂) → p.parse m₁ = (.ok n₁, p₁) →
      n₂.OnLeftSpine n₁ ∧
        ∃ ts₂ ts₁, Reads p ts₂ p₂ ∧ Reads p ts₁ p₁ ∧ ts₂ <+: ts₁ := by
  rw [parse_eq_resume p hm]
  refine ⟨fun e p₂ h => ?_, fun n₂ p₂ n₁ p₁ h h' => ?_⟩
  · rw [h]
    rfl
  · rw [h] at h'
    have hrest : RunR p₂ (.rest m₁ n₂) (.ok n₁, p₁) := runR_iff.2 h'
    have hfirst : RunR p (.expression m₂) (.ok n₂, p₂) := runR_iff.2 h
    obtain ⟨ts, hreads⟩ := hfirst.reads
    obtain ⟨us, hreads'⟩ := hrest.reads
    exact ⟨hrest.onLeftSpine, ts, ts ++ us, hreads, hreads.trans hreads', List.prefix_append ts us⟩

/-- Inside a group the difference is the left operand of the comparison; a group that is not closed
is an error at both powers. -/
theorem parse_lower_in_group :
    (∃ p p₂ p₁ n₂ n₁, ofString "1 - 2 > x) y" = .ok p ∧ p.parse 30 = (.ok n₂, p₂) ∧
      p.parse 1 = (.ok n₁, p₁) ∧ n₂.token.pos = 2 ∧ n₁.token.pos = 6 ∧ n₂.OnLeftSpine n₁ ∧
      ∃ ts₂ ts₁, Reads p ts₂ p₂ ∧ Reads p ts₁ p₁ ∧ ts₂ <+: ts₁) ∧
    ∃ p p₂, ofString "x - (y > 1" = .ok p ∧
      p.parse 30 = (.error (.unexpectedToken .rightParen .endOfInput 10), p₂) ∧
      p.parse 1 = (.error (.unexpectedToken .rightParen .endOfInput 10), p₂) := by
  have hone : ofString "1 - 2 > x) y" = .ok ⟨⟨" - 2 > x) y".toList, 1⟩, ⟨.number, "1", 0⟩,
      #[⟨.number, "1", 0⟩]⟩ := by rfl
  have hx : ofString "x - (y > 1" = .ok ⟨⟨" - (y > 1".toList, 1⟩, ⟨.identifier, "x", 0⟩,
      #[⟨.identifier, "x", 0⟩]⟩ := by rfl
  obtain ⟨p₂, hdifference⟩ : ∃ p₂, parse ⟨⟨" - 2 > x) y".toList, 1⟩, ⟨.number, "1", 0⟩,
      #[⟨.number, "1", 0⟩]⟩ 30 =
        (.ok (.binary ⟨.operator (.arithmetic .minus), "", 2⟩ (.leaf ⟨.number, "1", 0⟩)
          (.leaf ⟨.number, "2", 4⟩)), p₂) := ⟨_, Prod.ext (by decide +kernel) rfl⟩
  obtain ⟨p₁, hcomparison⟩ : ∃ p₁, parse ⟨⟨" - 2 > x) y".toList, 1⟩, ⟨.number, "1", 0⟩,
      #[⟨.number, "1", 0⟩]⟩ 1 =
        (.ok (.binary ⟨.operator (.comparison .greater), "", 6⟩
          (.binary ⟨.operator (.arithmetic .minus), "", 2⟩ (.leaf ⟨.number, "1", 0⟩)
            (.leaf ⟨.number, "2", 4⟩)) (.leaf ⟨.identifier, "x", 8⟩)), p₁) :=
    ⟨_, Prod.ext (by decide +kernel) rfl⟩
  obtain ⟨q, hopen⟩ : ∃ q, parse ⟨⟨" - (y > 1".toList, 1⟩, ⟨.identifier, "x", 0⟩,
      #[⟨.identifier, "x", 0⟩]⟩ 30 = (.error (.unexpectedToken .rightParen .endOfInput 10), q) :=
    ⟨_, Prod.ext (by decide +kernel) rfl⟩
  have hle : 1 ≤ 30 := by decide
  obtain ⟨hspine, hreads⟩ := (parse_lower _ hle).2 _ _ _ _ hdifference hcomparison
  exact ⟨⟨_, p₂, p₁, _, _, hone, hdifference, hcomparison, rfl, rfl, hspine, hreads⟩,
    _, q, hx, hopen, (parse_lower _ hle).1 _ _ hopen⟩

end Parser
end Condition
