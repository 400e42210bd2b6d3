/-
The runs of the parser as a relation: what each call answers, with the calls it
makes on the way (`RunR`). Every call has exactly one run, and it ends in the call's
own answer (`runR_iff`), so a property of all answers is shown by induction over
runs, one case for each thing the parser can do.
-/
import Condition.Parser

namespace Condition

/-- What a parser can be asked for: an operand, an expression whose operators bind more
tightly than `m`, or the rest of such an expression behind `left`. -/
inductive Task
  | operand
  | expression (m : Nat)
  | rest (m : Nat) (left : Node)

namespace Parser

/-- Reads one operand: a leaf, a group or a negation. -/
def operand (p : Parser) : Step Node :=
  match p.advance with
  | (.error e, p') => (.error e, p')
  | (.ok t, p') => (Parselet.ofKind t.kind).leading p' t

def perform (p : Parser) : Task → Step Node
  | .operand => p.operand
  | .expression m => p.parse m
  | .rest m left => p.extend m left

theorem parse_eq_operand (p : Parser) (m : Nat) :
    p.parse m =
      match p.operand with
      | (.error e, p') => (.error e, p')
      | (.ok left, p') => p'.extend m left := by
  rw [parse_eq, operand]
  cases p.advance with
  | mk r p' => cases r <;> rfl

/-- A run of a task from a parser, with its answer. -/
inductive RunR : Parser → Task → Step Node → Prop
  | stuck {p p' e} : p.advance = (.error e, p') → RunR p .operand (.error e, p')
  | atom {p p' t} : p.advance = (.ok t, p') → t.kind = .number ∨ t.kind = .identifier →
      RunR p .operand (.ok (.leaf t), p')
  | negation {p p₁ p' t n} : p.advance = (.ok t, p₁) → t.kind = .not →
      RunR p₁ (.expression 0) (.ok n, p') → RunR p .operand (.ok (.unary t n), p')
  | negationFails {p p₁ p' t e} : p.advance = (.ok t, p₁) → t.kind = .not →
      RunR p₁ (.expression 0) (.error e, p') → RunR p .operand (.error e, p')
  | group {p p₁ p₂ p' t n} : p.advance = (.ok t, p₁) → t.kind = .leftParen →
      RunR p₁ (.expression 1) (.ok n, p₂) → p₂.matchAndAdvance .rightParen = (.ok (), p') →
      RunR p .operand (.ok n, p')
  | groupFails {p p₁ p' t e} : p.advance = (.ok t, p₁) → t.kind = .leftParen →
      RunR p₁ (.expression 1) (.error e, p') → RunR p .operand (.error e, p')
  | groupOpen {p p₁ p₂ p' t n e} : p.advance = (.ok t, p₁) → t.kind = .leftParen →
      RunR p₁ (.expression 1) (.ok n, p₂) → p₂.matchAndAdvance .rightParen = (.error e, p') →
      RunR p .operand (.error e, p')
  /-- The token cannot start an operand. -/
  | noOperand {p p' t} : p.advance = (.ok t, p') →
      (Parselet.ofKind t.kind = .binary ∨ Parselet.ofKind t.kind = .unsupported) →
      RunR p .operand (.error (.dispatch t.kind .leading t.pos), p')
  | expression {p p' m n r} : RunR p .operand (.ok n, p') → RunR p' (.rest m n) r →
      RunR p (.expression m) r
  | expressionFails {p p' m e} : RunR p .operand (.error e, p') →
      RunR p (.expression m) (.error e, p')
  | stop {p m left} : p.lookahead.kind.power ≤ m → RunR p (.rest m left) (.ok left, p)
  | restStuck {p p' m left e} : m < p.lookahead.kind.power → p.advance = (.error e, p') →
      RunR p (.rest m left) (.error e, p')
  | operator {p p₁ p₂ m left t o right r} : m < p.lookahead.kind.power →
      p.advance = (.ok t, p₁) → t.kind = .operator o →
      RunR p₁ (.expression o.power) (.ok right, p₂) →
      RunR p₂ (.rest m (.binary t left right)) r → RunR p (.rest m left) r
  | operatorFails {p p₁ p' m left t o e} : m < p.lookahead.kind.power →
      p.advance = (.ok t, p₁) → t.kind = .operator o →
      RunR p₁ (.expression o.power) (.error e, p') → RunR p (.rest m left) (.error e, p')
  /-- The token cannot stand behind an operand. -/
  | noOperator {p p' m left t} : m < p.lookahead.kind.power → p.advance = (.ok t, p') →
      Parselet.ofKind t.kind ≠ .binary →
      RunR p (.rest m left) (.error (.dispatch t.kind .following t.pos), p')

/-! ## Taking a token of one kind -/

theorem matchAndAdvance_ok {p p' : Parser} {kind : TokenKind}
    (h : p.matchAndAdvance kind = (.ok (), p')) :
    p.lookahead.kind = kind ∧ p.advance = (.ok p.lookahead, p') := by
  unfold matchAndAdvance check at h
  by_cases hk : p.lookahead.kind = kind
  · simp only [hk, if_true] at h
    split at h
    · cases h
    · next t q ha => cases h; exact ⟨hk, advance_lookahead ha ▸ ha⟩
  · simp [hk] at h

theorem matchAndAdvance_of_advance {p p' : Parser} {t : Token} {kind : TokenKind}
    (hk : p.lookahead.kind = kind) (h : p.advance = (.ok t, p')) :
    p.matchAndAdvance kind = (.ok (), p') := by
  simp [matchAndAdvance, check, hk, h]

theorem matchAndAdvance_error {p p' q : Parser} {t : Token} {kind : TokenKind} {e : ParseError}
    (ha : p.advance = (.ok t, q)) (h : p.matchAndAdvance kind = (.error e, p')) :
    p.lookahead.kind ≠ kind ∧ e = .unexpectedToken kind p.lookahead.kind p.lookahead.pos := by
  unfold matchAndAdvance check at h
  by_cases hk : p.lookahead.kind = kind
  · simp [hk, ha] at h
  · simp only [hk, if_false, Prod.mk.injEq, Except.error.injEq] at h
    exact ⟨hk, h.1.symm⟩

/-! ## Every call has a run -/

theorem advance_kind_ne {p p' : Parser} {t : Token} (h : p.advance = (.ok t, p')) {k : TokenKind}
    (hk : t.kind = k) (hne : k ≠ .endOfInput) : p'.size < p.size :=
  advance_size_lt h (by rw [hk]; exact hne)

theorem runR_operand {p : Parser}
    (ih : ∀ q m, q.size < p.size → RunR q (.expression m) (q.parse m)) :
    RunR p .operand p.operand := by
  rw [operand]
  split
  · next e p' ha => exact .stuck ha
  next t p₁ ha =>
  cases hk : t.kind with
  | number => exact .atom ha (.inl hk)
  | identifier => exact .atom ha (.inr hk)
  | not =>
    have hrun := ih p₁ 0 (advance_kind_ne ha hk (by simp))
    simp only [Parselet.ofKind, Parselet.leading, hk, TokenKind.power]
    split
    · next e p' he => exact .negationFails ha hk (he ▸ hrun)
    · next n p' hn => exact .negation ha hk (hn ▸ hrun)
  | leftParen =>
    have hrun := ih p₁ 1 (advance_kind_ne ha hk (by simp))
    simp only [Parselet.ofKind, Parselet.leading, hk, TokenKind.power]
    split
    · next e p' he => exact .groupFails ha hk (he ▸ hrun)
    · next n p₂ hn =>
      split
      · next e p' hm => exact .groupOpen ha hk (hn ▸ hrun) hm
      · next p' hm => exact .group ha hk (hn ▸ hrun) hm
  | operator _ | rightParen | endOfInput =>
    have hrun := RunR.noOperand ha (by simp [hk, Parselet.ofKind])
    simpa [hk, Parselet.ofKind, Parselet.leading] using hrun

theorem runR_rest {p : Parser} (ih : ∀ q task, q.size < p.size → RunR q task (q.perform task))
    (m : Nat) (left : Node) : RunR p (.rest m left) (p.extend m left) := by
  rw [extend_eq]
  split
  case isFalse hm => exact .stop (by omega)
  case isTrue hm =>
  split
  · next e p' ha => exact .restStuck hm ha
  next t p₁ ha =>
  by_cases hb : ∃ o, t.kind = .operator o
  · obtain ⟨o, ho⟩ := hb
    have h₁ : p₁.size < p.size := advance_kind_ne ha ho (by simp)
    have hrun : RunR p₁ (.expression o.power) (p₁.parse o.power) := ih p₁ _ h₁
    simp only [Parselet.ofKind, Parselet.following, ho, TokenKind.power]
    split
    · next e p' he =>
      split at he
      · next e₂ p₂ hr => cases he; exact .operatorFails hm ha ho (hr ▸ hrun)
      · cases he
    · next tree p' he =>
      split at he
      · cases he
      · next right p₂ hr =>
        cases he
        exact .operator hm ha ho (hr ▸ hrun)
          (ih p' (.rest m (.binary t left right)) (Nat.lt_trans (parse_size_lt hr) h₁))
  · have hne : Parselet.ofKind t.kind ≠ .binary := by
      cases hk : t.kind <;> simp_all [Parselet.ofKind]
    have hd : (Parselet.ofKind t.kind).following p₁ t left =
        (.error (.dispatch t.kind .following t.pos), p₁) := by
      cases hk : Parselet.ofKind t.kind <;> simp_all [Parselet.following]
    rw [hd]
    exact .noOperator hm ha hne

theorem RunR.size {p p' : Parser} {task : Task} {n : Node} {r : Step Node} (h : RunR p task r)
    (hr : r = (.ok n, p')) :
    p'.size ≤ p.size ∧ ((∃ m left, task = .rest m left) ∨ p'.size < p.size) := by
  induction h generalizing n p' with
  | stuck | negationFails | groupFails | groupOpen | noOperand | expressionFails | restStuck
  | operatorFails | noOperator => simp at hr
  | atom ha hk =>
    cases hr
    have := advance_size_lt ha (by rcases hk with hk | hk <;> simp [hk])
    omega
  | negation ha hk _ ih =>
    cases hr
    have h₁ := advance_kind_ne ha hk (by simp)
    have h₂ := (ih rfl).1
    omega
  | group ha hk _ hm ih =>
    cases hr
    have h₁ := advance_kind_ne ha hk (by simp)
    have h₂ := (ih rfl).1
    have h₃ := matchAndAdvance_size_lt (by simp) hm
    omega
  | expression _ _ ih₁ ih₂ =>
    have h₁ := (ih₁ rfl).2
    have h₂ := (ih₂ hr).1
    simp only [reduceCtorEq, exists_false, false_or] at h₁
    omega
  | stop => cases hr; simp
  | operator hm ha hk _ _ ih₁ ih₂ =>
    have h₁ := advance_kind_ne ha hk (by simp)
    have h₂ := (ih₁ rfl).1
    have h₃ := (ih₂ hr).1
    omega

/-- Every call has a run that ends in its answer. -/
theorem runR_perform (p : Parser) (task : Task) : RunR p task (p.perform task) := by
  induction hn : p.size using Nat.strongRecOn generalizing p task with
  | _ n ih =>
  subst hn
  have ih' : ∀ q task, q.size < p.size → RunR q task (q.perform task) :=
    fun q task hq => ih q.size hq q task rfl
  have hop : RunR p .operand p.operand := runR_operand fun q m hq => ih' q (.expression m) hq
  cases task with
  | operand => exact hop
  | rest m left => exact runR_rest ih' m left
  | expression m =>
    simp only [perform, parse_eq_operand]
    split
    · next e p' he => exact .expressionFails (he ▸ hop)
    · next left p' he =>
      rw [he] at hop
      have hlt : p'.size < p.size := by simpa using (hop.size rfl).2
      exact .expression hop (ih' p' (.rest m left) hlt)

theorem RunR.perform_eq {p : Parser} {task : Task} {r : Step Node} (h : RunR p task r) :
    p.perform task = r := by
  induction h with
  | stuck ha => simp [perform, operand, ha]
  | atom ha hk =>
    rcases hk with hk | hk <;> simp [perform, operand, ha, hk, Parselet.ofKind, Parselet.leading]
  | negation ha hk _ ih | negationFails ha hk _ ih | groupFails ha hk _ ih =>
    simp only [perform] at ih
    simp [perform, operand, ha, hk, Parselet.ofKind, Parselet.leading, TokenKind.power, ih]
  | group ha hk _ hm ih | groupOpen ha hk _ hm ih =>
    simp only [perform] at ih
    simp [perform, operand, ha, hk, Parselet.ofKind, Parselet.leading, TokenKind.power, ih, hm]
  | noOperand ha hk =>
    rcases hk with hk | hk <;> simp [perform, operand, ha, hk, Parselet.leading]
  | expression _ _ ih₁ ih₂ =>
    simp only [perform] at ih₁ ih₂ ⊢
    simp [parse_eq_operand, ih₁, ih₂]
  | expressionFails _ ih =>
    simp only [perform] at ih ⊢
    simp [parse_eq_operand, ih]
  | stop hm => simp [perform, extend_eq, Nat.not_lt.2 hm]
  | restStuck hm ha => simp [perform, extend_eq, hm, ha]
  | operator hm ha hk _ _ ih₁ ih₂ =>
    simp only [perform] at ih₁ ih₂ ⊢
    rw [extend_eq, if_pos hm]
    simp [ha, hk, Parselet.ofKind, Parselet.following, TokenKind.power, ih₁, ih₂]
  | operatorFails hm ha hk _ ih =>
    simp only [perform] at ih ⊢
    rw [extend_eq, if_pos hm]
    simp [ha, hk, Parselet.ofKind, Parselet.following, TokenKind.power, ih]
  | @noOperator _ _ _ _ t hm ha hk =>
    simp only [perform]
    rw [extend_eq]
    cases hp : Parselet.ofKind t.kind <;> simp_all [Parselet.following]

theorem runR_iff {p : Parser} {task : Task} {r : Step Node} :
    RunR p task r ↔ p.perform task = r :=
  ⟨RunR.perform_eq, fun h => h ▸ runR_perform p task⟩

end Parser
end Condition
