/-
The outcome of parsing as a flat machine over the tokens.

The machine keeps a stack of marks, one for each parenthesis and each negation still
open, and expects either an operand or an operator. It needs no powers: that of two
misplaced tokens one is refused by name and the other for the missing parenthesis is
decided by the top mark alone. Main statement: `run_eq_parseExpression`, by a
simulation of every run of the parser (`RunR.machine`). A run that answers leaves the
marks as they were, but for negations that it has not seen the end of; those are only
left when the lookahead has no power, so that every caller of the run stops there too.
-/
import Condition.Proofs.Precedence
import Mathlib.Data.List.Basic

namespace Condition

theorem Operator.power_ne_zero (o : Operator) : o.power ≠ 0 := by
  have := o.one_lt_power
  omega

inductive Mark
  | paren
  | negation
deriving DecidableEq

inductive Expected
  | operand
  | operator

structure Machine where
  expected : Expected
  /-- What is open, the innermost first. -/
  marks : List Mark

namespace Machine

/-- What a token does to the machine: it goes on, or stops with an outcome. -/
inductive Move
  | go (next : Machine)
  | stop (outcome : Except ParseError Unit)

def stepOperand (marks : List Mark) (t : Token) : Move :=
  match t.kind with
  | .number | .identifier => .go ⟨.operator, marks⟩
  | .leftParen => .go ⟨.operand, .paren :: marks⟩
  | .not => .go ⟨.operand, .negation :: marks⟩
  | .operator _ | .rightParen | .endOfInput => .stop (.error (.dispatch t.kind .leading t.pos))

def stepOperator (marks : List Mark) (t : Token) : Move :=
  match t.kind, marks with
  | .operator _, _ => .go ⟨.operand, marks⟩
  | .rightParen, .paren :: below => .go ⟨.operator, below⟩
  | .leftParen, .paren :: _ => .stop (.error (.unexpectedToken .rightParen .leftParen t.pos))
  | .rightParen, _ | .leftParen, _ => .stop (.error (.dispatch t.kind .following t.pos))
  | .number, _ | .identifier, _ | .not, _ | .endOfInput, _ =>
    if marks.dropWhile (· = .negation) = [] then .stop (.ok ())
    else .stop (.error (.unexpectedToken .rightParen t.kind t.pos))

def step (m : Machine) (t : Token) : Move :=
  match m.expected with
  | .operand => stepOperand m.marks t
  | .operator => stepOperator m.marks t

/-- The outcome of the tokens, if the machine stops at one of them. -/
def run (m : Machine) : List Token → Option (Except ParseError Unit)
  | [] => none
  | t :: ts =>
    match m.step t with
    | .go next => next.run ts
    | .stop outcome => some outcome

def start : Machine := ⟨.operand, []⟩

theorem run_of_go {m next : Machine} {t : Token} {ts : List Token} (h : m.step t = .go next) :
    m.run (t :: ts) = next.run ts := by
  rw [run, h]

theorem run_of_stop {m : Machine} {t : Token} {ts : List Token} {outcome : Except ParseError Unit}
    (h : m.step t = .stop outcome) : m.run (t :: ts) = some outcome := by
  rw [run, h]

theorem step_not {marks : List Mark} {t : Token} (h : t.kind = .not) :
    (mk .operand marks).step t = .go ⟨.operand, .negation :: marks⟩ := by
  simp [step, stepOperand, h]

theorem step_leftParen {marks : List Mark} {t : Token} (h : t.kind = .leftParen) :
    (mk .operand marks).step t = .go ⟨.operand, .paren :: marks⟩ := by
  simp [step, stepOperand, h]

theorem step_operator {marks : List Mark} {t : Token} {op : Operator}
    (h : t.kind = .operator op) : (mk .operator marks).step t = .go ⟨.operand, marks⟩ := by
  simp [step, stepOperator, h]

/-! ## Simulation -/

/-- The negations that a run has left open, above the other marks. -/
def leave (k : Nat) (marks : List Mark) : List Mark := List.replicate k .negation ++ marks

@[simp] theorem leave_zero (marks : List Mark) : leave 0 marks = marks := rfl

theorem leave_negation (k : Nat) (marks : List Mark) :
    leave k (.negation :: marks) = leave (k + 1) marks := by
  simp [leave, List.replicate_succ', List.append_assoc]

theorem dropWhile_leave (k : Nat) (marks : List Mark) :
    (leave k marks).dropWhile (· = .negation) = marks.dropWhile (· = .negation) := by
  induction k with
  | zero => rfl
  | succ k ih => rw [← ih]; simp [leave, List.replicate_succ]

/-- What the machine, started before the tokens `ts` over `marks`, has to do with a
run's result. -/
def Agrees (m : Machine) (ts : List Token) (marks : List Mark) : Parser.Step Node → Prop
  | (.error e, _) => m.run ts = some (.error e)
  | (.ok _, p) => ∃ k us, p.Settled ∧ p.tokens = .ok us ∧
      m.run ts = (Machine.mk .operator (leave k marks)).run us ∧
      (0 < k → p.lookahead.kind.power = 0)

theorem Agrees.of_run_eq {m m' : Machine} {ts us : List Token} {marks : List Mark}
    {r : Parser.Step Node} (h : m.run ts = m'.run us) (h' : Agrees m' us marks r) :
    Agrees m ts marks r := by
  match r, h' with
  | (.error e, _), h' => exact h.trans h'
  | (.ok n, p), ⟨k, vs, hs, htok, hrun, hk⟩ => exact ⟨k, vs, hs, htok, h.trans hrun, hk⟩

/-- What the machine has to do before the tokens `ts`, which are ahead of `p`, when a
task is run. A run at `m = 0` refuses every parenthesis, so it is not the inside of one. -/
def Simulates (p : Parser) (ts : List Token) : Task → Parser.Step Node → Prop
  | .operand, r => ∀ marks, Agrees ⟨.operand, marks⟩ ts marks r
  | .expression m, r => ∀ marks, (m = 0 → marks.head? ≠ some .paren) →
      Agrees ⟨.operand, marks⟩ ts marks r
  | .rest m _, r => ∀ marks k, (m = 0 → marks.head? ≠ some .paren) →
      (0 < k → p.lookahead.kind.power = 0) → Agrees ⟨.operator, leave k marks⟩ ts marks r

/-- A group that is not closed is refused at its lookahead, whatever negations are open. -/
theorem stepOperator_open {k : Nat} {marks : List Mark} {t : Token} (hp : t.kind.power ≤ 1)
    (hk : 0 < k → t.kind.power = 0) (hne : t.kind ≠ .rightParen) :
    stepOperator (leave k (.paren :: marks)) t =
      .stop (.error (.unexpectedToken .rightParen t.kind t.pos)) := by
  cases ht : t.kind with
  | rightParen => exact absurd ht hne
  | operator o =>
    have := o.one_lt_power
    rw [ht] at hp
    simp only [TokenKind.power] at hp
    omega
  | leftParen =>
    -- The parenthesis has a power, so no negation is open.
    have : k = 0 := by
      rw [ht] at hk
      simp only [TokenKind.power] at hk
      omega
    subst this
    simp [stepOperator, ht]
  | number | identifier | not | endOfInput =>
    simp [stepOperator, ht, dropWhile_leave]

/-- Outside parentheses nothing with a power but an operator can stand behind an operand. -/
theorem stepOperator_refused {m : Nat} {marks : List Mark} {t : Token} (hm : m < t.kind.power)
    (hop : ∀ o, t.kind ≠ .operator o) (hmarks : m = 0 → marks.head? ≠ some .paren) :
    stepOperator marks t = .stop (.error (.dispatch t.kind .following t.pos)) := by
  have hparen : t.kind.power = 1 → marks.head? ≠ some .paren := fun h => hmarks (by omega)
  cases ht : t.kind with
  | operator o => exact absurd ht (hop o)
  | number | identifier | not | endOfInput => simp [ht, TokenKind.power] at hm
  | leftParen | rightParen =>
    simp only [ht, TokenKind.power, forall_const] at hparen
    cases marks with
    | nil => simp [stepOperator, ht]
    | cons mark marks => cases mark <;> simp_all [stepOperator]

end Machine

open Machine

namespace Parser

/-- The machine does what a run of the parser does. -/
theorem RunR.machine {p : Parser} {task : Task} {r : Step Node} (h : RunR p task r)
    {ts : List Token} (hs : p.Settled) (hts : p.tokens = .ok ts) : Simulates p ts task r := by
  induction h generalizing ts with
  | stuck ha | restStuck _ ha =>
    obtain ⟨q, hq, -⟩ := advance_of_tokens hs hts
    rw [ha] at hq
    cases hq
  | @atom _ _ t ha hk =>
    intro marks
    have hne : t.kind ≠ .endOfInput := by rcases hk with hk | hk <;> simp [hk]
    obtain ⟨us, rfl, hs', htok⟩ := tokens_of_advance hs hts ha hne
    refine ⟨0, us, hs', htok, run_of_go ?_, by simp⟩
    rcases hk with hk | hk <;> simp [step, stepOperand, hk]
  | @negation _ _ p' t _ ha hk hrun ih =>
    intro marks
    obtain ⟨us, rfl, hs', htok⟩ := tokens_of_advance hs hts ha (by simp [hk])
    obtain ⟨k, vs, hs'', htok', hgo, -⟩ := ih hs' htok (.negation :: marks) (by simp)
    rw [leave_negation] at hgo
    exact ⟨k + 1, vs, hs'', htok', (run_of_go (step_not hk)).trans hgo,
      fun _ => Nat.le_zero.1 hrun.power_le⟩
  | @negationFails _ _ _ t _ ha hk _ ih =>
    intro marks
    obtain ⟨us, rfl, hs', htok⟩ := tokens_of_advance hs hts ha (by simp [hk])
    exact (run_of_go (step_not hk)).trans (ih hs' htok (.negation :: marks) (by simp))
  | @group _ _ p₂ _ t _ ha hk _ hm ih =>
    intro marks
    obtain ⟨us, rfl, hs', htok⟩ := tokens_of_advance hs hts ha (by simp [hk])
    obtain ⟨k, vs, hs'', htok', hgo, hkzero⟩ := ih hs' htok (.paren :: marks) (by simp)
    obtain ⟨hclose, hadv⟩ := matchAndAdvance_ok hm
    obtain ⟨ws, rfl, hs₃, htok₃⟩ := tokens_of_advance hs'' htok' hadv (by simp [hclose])
    -- The closing parenthesis has a power, so no negation is open.
    have hk0 : k = 0 := by
      simp only [hclose, TokenKind.power] at hkzero
      omega
    subst hk0
    have hshut : (Machine.mk .operator (.paren :: marks)).step p₂.lookahead =
        .go ⟨.operator, marks⟩ := by
      simp [step, stepOperator, hclose]
    refine ⟨0, ws, hs₃, htok₃, ?_, by simp⟩
    rw [run_of_go (step_leftParen hk), hgo]
    exact run_of_go hshut
  | @groupFails _ _ _ t _ ha hk _ ih =>
    intro marks
    obtain ⟨us, rfl, hs', htok⟩ := tokens_of_advance hs hts ha (by simp [hk])
    exact (run_of_go (step_leftParen hk)).trans (ih hs' htok (.paren :: marks) (by simp))
  | @groupOpen _ _ p₂ _ t _ _ ha hk hrun hm ih =>
    intro marks
    obtain ⟨us, rfl, hs', htok⟩ := tokens_of_advance hs hts ha (by simp [hk])
    obtain ⟨k, vs, hs'', htok', hgo, hkzero⟩ := ih hs' htok (.paren :: marks) (by simp)
    obtain ⟨q, hadv, -⟩ := advance_of_tokens hs'' htok'
    obtain ⟨hne, rfl⟩ := matchAndAdvance_error hadv hm
    obtain ⟨ws, rfl⟩ := tokens_head htok'
    have hstop : (Machine.mk .operator (leave k (.paren :: marks))).step p₂.lookahead =
        .stop (.error (.unexpectedToken .rightParen p₂.lookahead.kind p₂.lookahead.pos)) :=
      stepOperator_open hrun.power_le hkzero hne
    exact (run_of_go (step_leftParen hk)).trans (hgo.trans (run_of_stop hstop))
  | @noOperand p _ t ha hk =>
    intro marks
    obtain ⟨us, rfl⟩ := tokens_head hts
    obtain rfl := advance_lookahead ha
    refine run_of_stop ?_
    cases hkind : p.lookahead.kind <;> simp_all [Parselet.ofKind, step, stepOperand]
  | expression _ _ ih₁ ih₂ =>
    intro marks hmarks
    obtain ⟨k, us, hs', htok, hrun, hk⟩ := ih₁ hs hts marks
    exact .of_run_eq hrun (ih₂ hs' htok marks k hmarks hk)
  | expressionFails _ ih => exact fun marks _ => ih hs hts marks
  | stop hm => exact fun marks k _ hk => ⟨k, ts, hs, hts, rfl, hk⟩
  | @operator p _ _ m _ t op _ _ hm ha hk _ _ ih₁ ih₂ =>
    intro marks k hmarks hkzero
    obtain ⟨us, rfl, hs', htok⟩ := tokens_of_advance hs hts ha (by simp [hk])
    have hk0 : k = 0 := by omega
    subst hk0
    have hne : op.power = 0 → marks.head? ≠ some .paren := fun h => absurd h op.power_ne_zero
    obtain ⟨k', vs, hs'', htok', hgo, hkzero'⟩ := ih₁ hs' htok marks hne
    exact .of_run_eq ((run_of_go (step_operator hk)).trans hgo)
      (ih₂ hs'' htok' marks k' hmarks hkzero')
  | @operatorFails _ _ _ _ _ t op _ hm ha hk _ ih =>
    intro marks k _ hkzero
    obtain ⟨us, rfl, hs', htok⟩ := tokens_of_advance hs hts ha (by simp [hk])
    have hk0 : k = 0 := by omega
    subst hk0
    have hne : op.power = 0 → marks.head? ≠ some .paren := fun h => absurd h op.power_ne_zero
    exact (run_of_go (step_operator hk)).trans (ih hs' htok marks hne)
  | @noOperator p _ m _ t hm ha hk =>
    intro marks k hmarks hkzero
    obtain ⟨us, rfl⟩ := tokens_head hts
    obtain rfl := advance_lookahead ha
    have hk0 : k = 0 := by omega
    subst hk0
    refine run_of_stop (stepOperator_refused hm ?_ hmarks)
    intro o ho
    simp [ho, Parselet.ofKind] at hk

end Parser

theorem Machine.stepOperator_done {k : Nat} {t : Token} (hp : t.kind.power = 0) :
    stepOperator (leave k []) t = .stop (.ok ()) := by
  have hdrop := dropWhile_leave k []
  cases ht : t.kind with
  | operator o =>
    have := o.one_lt_power
    simp only [ht, TokenKind.power] at hp
    omega
  | leftParen | rightParen => simp [ht, TokenKind.power] at hp
  | number | identifier | not | endOfInput => simp [stepOperator, ht, hdrop]

/-- **The machine is the parser.** On a text whose tokens have no error, it stops with
the outcome of parsing: success, or the same error with the same kind, role and place. -/
theorem run_eq_parseExpression {input : String} {ts : List Token} (h : tokenize input = .ok ts) :
    Machine.start.run ts = some ((parseExpression input).map fun _ => ()) := by
  rcases Parser.ofString_eq input with ⟨p, hp, hs, htok⟩ | ⟨e, -, he⟩
  · rw [htok] at h
    have hrun := Parser.runR_perform p (.expression 0)
    have hsim := hrun.machine hs h [] (by simp)
    simp only [parseExpression, hp]
    simp only [Parser.perform] at hrun hsim
    rcases hr : p.parse 0 with ⟨e | n, p'⟩
    · rw [hr] at hsim
      exact hsim
    · rw [hr] at hrun hsim
      obtain ⟨k, us, -, htok', hgo, -⟩ := hsim
      obtain ⟨vs, rfl⟩ := Parser.tokens_head htok'
      have hstop : (Machine.mk .operator (leave k [])).step p'.lookahead = .stop (.ok ()) :=
        stepOperator_done (Nat.le_zero.1 hrun.power_le)
      exact hgo.trans (run_of_stop hstop)
  · rw [he] at h
    cases h

/-- A negation takes the parenthesis that would close its group, and refuses it. -/
theorem run_negation_in_group :
    tokenize "(1 + NOT a) b" = .ok [⟨.leftParen, "", 0⟩, ⟨.number, "1", 1⟩,
        ⟨.operator (.arithmetic .plus), "", 3⟩, ⟨.not, "", 5⟩, ⟨.identifier, "a", 9⟩,
        ⟨.rightParen, "", 10⟩, ⟨.identifier, "b", 12⟩, ⟨.endOfInput, "", 13⟩] ∧
      Machine.start.run [⟨.leftParen, "", 0⟩, ⟨.number, "1", 1⟩,
        ⟨.operator (.arithmetic .plus), "", 3⟩, ⟨.not, "", 5⟩, ⟨.identifier, "a", 9⟩,
        ⟨.rightParen, "", 10⟩, ⟨.identifier, "b", 12⟩, ⟨.endOfInput, "", 13⟩] =
        some ((parseExpression "(1 + NOT a) b").map fun _ => ()) ∧
      (parseExpression "(1 + NOT a) b").map (fun _ => ()) =
        .error (.dispatch .rightParen .following 10) := by
  have htok : tokenize "(1 + NOT a) b" = .ok [⟨.leftParen, "", 0⟩, ⟨.number, "1", 1⟩,
      ⟨.operator (.arithmetic .plus), "", 3⟩, ⟨.not, "", 5⟩, ⟨.identifier, "a", 9⟩,
      ⟨.rightParen, "", 10⟩, ⟨.identifier, "b", 12⟩, ⟨.endOfInput, "", 13⟩] := by decide +kernel
  have hrun := run_eq_parseExpression htok
  exact ⟨htok, hrun, Option.some.inj hrun.symm⟩

end Condition
