/-
The lexical errors of a text, as its parser meets them.

A run that ends in a lexical error has met the first error among the tokens ahead of it
(`RunR.tokens_of_lex`). Not every run meets that error. To tell which do, the parser of a
text with a bad character is run beside the parser of what stands before the character
(`Twin`). Both take the same tokens, until the one comes to the character and the other to
its end; before that, nothing tells them apart (`RunR.twin`). Main statement:
`parseExpression_lexical`.
-/
import Condition.Proofs.ParsedPrefix
import Condition.Proofs.ParserRequests

namespace Condition.Parser

open Scanner (Scans)

/-! ## The error that a run ends in -/

theorem settled_advance {p : Parser} (h : p.Settled) : p.advance.2.Settled := by
  have hr := p.advanceR
  generalize p.advance = r at hr
  cases hr with
  | takes hs => exact fun hend => Scanner.next_end hs hend
  | passes hs =>
    -- The lookahead stays, and it is not the end: nothing fails there.
    intro hend
    cases hs.symm.trans (h hend)

theorem settled_of_advance {p p' : Parser} {r : Except ParseError Token}
    (ha : p.advance = (r, p')) (h : p.Settled) : p'.Settled :=
  preserves_of_advance (fun _ => settled_advance) ha h

theorem tokens_of_advance_error {p p' : Parser} {e : LexError} (h : p.Settled)
    (ha : p.advance = (.error (.lex e), p')) : p.tokens = .error e := by
  have hend : p.lookahead.kind ≠ .endOfInput := by
    intro hend
    rw [advance, h hend] at ha
    cases ha
  rcases p.advance_cases with ⟨q, hq, -⟩ | ⟨e', q, hq, htok⟩
  · cases hq.symm.trans ha
  · cases hq.symm.trans ha
    rw [tokens_of_ne hend, htok]
    rfl

theorem advance_of_matchAndAdvance_lex {p p' : Parser} {kind : TokenKind} {e : LexError}
    (h : p.matchAndAdvance kind = (.error (.lex e), p')) : p.advance = (.error (.lex e), p') := by
  rcases p.matchAndAdvance_cases kind with ⟨-, hm⟩ | ⟨-, hm⟩
  · cases hm.symm.trans h
  · rw [hm] at h
    generalize p.advance = r at h
    rcases r with ⟨e' | t, q⟩
    · cases h
      rfl
    · cases h

theorem Reads.tokens_of_error {p p' : Parser} {ts : List Token} {e : LexError} (h : Reads p ts p')
    (he : p'.tokens = .error e) : p.tokens = .error e := by
  rw [h.tokens_eq, he]
  rfl

theorem RunR.reads {p p' : Parser} {task : Task} {n : Node} (h : RunR p task (.ok n, p')) :
    ∃ ts, Reads p ts p' := by
  have hsound := h.sound rfl
  cases task with
  | operand =>
    obtain ⟨ts, s, hreads, -⟩ := hsound
    exact ⟨ts, hreads⟩
  | expression m =>
    obtain ⟨ts, s, o, links, hreads, -⟩ := hsound
    exact ⟨ts, hreads⟩
  | rest m left =>
    obtain ⟨ts, s, links, hreads, -⟩ := hsound
    exact ⟨ts, hreads⟩

/-- The lexical error of a run is the first one among the tokens ahead. -/
theorem RunR.tokens_of_lex {p : Parser} {task : Task} {r : Step Node} {e : LexError}
    (h : RunR p task r) (hr : r.1 = .error (.lex e)) (hs : p.Settled) : p.tokens = .error e := by
  have settled {p p' : Parser} {task : Task} {r : Except ParseError Node}
      (h : RunR p task (r, p')) (hs : p.Settled) : p'.Settled :=
    h.preserves (fun _ => settled_advance) hs
  -- What is met behind tokens that have been taken is ahead of the first of them.
  have behind {p p₁ : Parser} {t : Token} {k : TokenKind} (ha : p.advance = (.ok t, p₁))
      (hk : t.kind = k) (hne : k ≠ .endOfInput) (htok : p₁.tokens = .error e) :
      p.tokens = .error e :=
    (Reads.one ha (hk ▸ hne)).tokens_of_error htok
  induction h with
  | stuck ha | restStuck _ ha =>
    cases hr
    exact tokens_of_advance_error hs ha
  | atom | negation | group | stop | noOperand | noOperator => cases hr
  | negationFails ha hk _ ih | groupFails ha hk _ ih | operatorFails _ ha hk _ ih =>
    exact behind ha hk nofun (ih hr (settled_of_advance ha hs))
  | groupOpen ha hk hrun hm =>
    cases hr
    obtain ⟨ts, hreads⟩ := hrun.reads
    have hs₂ := settled hrun (settled_of_advance ha hs)
    have htok := tokens_of_advance_error hs₂ (advance_of_matchAndAdvance_lex hm)
    exact behind ha hk nofun (hreads.tokens_of_error htok)
  | expression hrun _ _ ih =>
    obtain ⟨ts, hreads⟩ := hrun.reads
    exact hreads.tokens_of_error (ih hr (settled hrun hs))
  | expressionFails _ ih => exact ih hr hs
  | operator _ ha hk hrun _ _ ih =>
    obtain ⟨ts, hreads⟩ := hrun.reads
    have hs₁ := settled_of_advance ha hs
    exact behind ha hk nofun (hreads.tokens_of_error (ih hr (settled hrun hs₁)))

theorem tokenize_of_parseExpression_lex {input : String} {e : LexError}
    (h : parseExpression input = .error (.lex e)) : tokenize input = .error e := by
  unfold parseExpression at h
  rcases ofString_eq input with ⟨p, hp, hs, htok⟩ | ⟨e', he', htok⟩
  · rw [hp] at h
    rw [htok]
    exact (runR_perform p (.expression 0)).tokens_of_lex h hs
  · rw [he'] at h
    cases h
    exact htok

/-! ## Beside the text before a bad character -/

/-- The end is among the tokens scanned. -/
def HasEnd (p : Parser) : Prop := ∃ t ∈ p.scanned, t.kind = .endOfInput

/-- Reading the expression at the start of the text scans the end. -/
def ScansEnd (input : String) : Prop :=
  ∃ p, ofString input = .ok p ∧ (p.parse 0).2.HasEnd

theorem hasEnd_advance {p : Parser} (h : p.HasEnd) : p.advance.2.HasEnd := by
  obtain ⟨t, ht, hend⟩ := h
  have hr := p.advanceR
  generalize p.advance = r at hr
  cases hr with
  | takes => exact ⟨t, Array.mem_push_of_mem _ ht, hend⟩
  | passes => exact ⟨t, ht, hend⟩

theorem hasEnd_of_matchAndAdvance {p p' : Parser} {kind : TokenKind} {r : Except ParseError Unit}
    (hm : p.matchAndAdvance kind = (r, p')) (h : p.HasEnd) : p'.HasEnd :=
  preserves_of_matchAndAdvance (fun _ => hasEnd_advance) hm h

theorem RunR.hasEnd {p : Parser} {task : Task} {r : Step Node} (h : RunR p task r)
    (hp : p.HasEnd) : r.2.HasEnd :=
  h.preserves (fun _ => hasEnd_advance) hp

/-- The same tokens are ahead of both parsers, and behind them the error ahead of the first and
the end ahead of the second, which it has not scanned. -/
structure Twin (e : LexError) (p q : Parser) : Prop where
  lookahead : p.lookahead = q.lookahead
  ahead : ∃ ts s s' t u u', Scans p.scanner ts s ∧ s.next = (.error e, u) ∧
    Scans q.scanner ts s' ∧ s'.next = (.ok t, u') ∧ t.kind = .endOfInput
  no_end : ¬ q.HasEnd

/-- What a step of the first parser and the same step of the second have to do with each other:
both answer alike, or the first has met the error and the second has scanned its end. -/
inductive Beside (e : LexError) : Step Node → Step Node → Prop
  | alike {r p q} : Twin e p q → Beside e (r, p) (r, q)
  | parted {r p q} : q.HasEnd → Beside e (.error (.lex e), p) (r, q)

/-- An advance of the second parser succeeds. The first parser makes it too, or it meets the
error, where the second scans its end. -/
theorem Twin.advance {e : LexError} {p q q' : Parser} {r : Except ParseError Token}
    (h : Twin e p q) (ha : q.advance = (r, q')) :
    r = .ok q.lookahead ∧
      ((∃ p', p.advance = (r, p') ∧ Twin e p' q') ∨
        ∃ p', p.advance = (.error (.lex e), p') ∧ q'.HasEnd) := by
  obtain ⟨hlook, ⟨ts, s, s', t, u, u', hscans, hs, hscans', hs', hend⟩, hno⟩ := h
  cases hscans with
  | nil =>
    cases hscans'
    rw [Parser.advance, hs'] at ha
    cases ha
    exact ⟨rfl, .inr ⟨_, by rw [Parser.advance, hs], t, by simp, hend⟩⟩
  | @cons _ s₁ _ t₁ ts hs₁ ht₁ hscans =>
    obtain _ | ⟨hs₁', -, hscans'⟩ := hscans'
    rw [Parser.advance, hs₁'] at ha
    cases ha
    have ha' : p.advance = (.ok q.lookahead, ⟨s₁, t₁, p.scanned.push t₁⟩) := by
      rw [Parser.advance, hs₁, hlook]
    refine ⟨rfl, .inl ⟨_, ha', rfl, ⟨ts, s, s', t, u, u', hscans, hs, hscans', hs', hend⟩, ?_⟩⟩
    rintro ⟨x, hx, hxend⟩
    rcases Array.mem_push.1 hx with hx | rfl
    · exact hno ⟨x, hx, hxend⟩
    · exact ht₁ hxend

theorem Twin.matchAndAdvance {e : LexError} {p q q' : Parser} {r : Except ParseError Unit}
    (h : Twin e p q) {kind : TokenKind} (hm : q.matchAndAdvance kind = (r, q')) :
    (∃ p', p.matchAndAdvance kind = (r, p') ∧ Twin e p' q') ∨
      ∃ p', p.matchAndAdvance kind = (.error (.lex e), p') ∧ q'.HasEnd := by
  rcases q.matchAndAdvance_cases kind with ⟨hne, hq⟩ | ⟨hk, hq⟩
  · cases hq.symm.trans hm
    refine .inl ⟨p, ?_, h⟩
    rw [Parser.matchAndAdvance, check, h.lookahead, if_neg hne]
  · rcases ha : q.advance with ⟨s, q₁⟩
    rw [ha] at hq
    cases hq.symm.trans hm
    obtain ⟨rfl, ⟨p', ha', htwin⟩ | ⟨p', ha', hend⟩⟩ := h.advance ha
    · refine .inl ⟨p', ?_, htwin⟩
      exact matchAndAdvance_of_advance (h.lookahead ▸ hk) ha'
    · refine .inr ⟨p', ?_, hend⟩
      rw [Parser.matchAndAdvance, check, h.lookahead, if_pos hk, ha']

/-- The first parser does the task beside what the second did. -/
def RunsBeside (e : LexError) (p : Parser) (task : Task) (r : Step Node) : Prop :=
  ∃ s, RunR p task s ∧ Beside e s r

/-- A task that begins with an advance: the parsers may part there, and if they do not, it is
left to what comes behind. -/
theorem Twin.runsBeside_of_advance {e : LexError} {p q q' : Parser} {task : Task} {t : Token}
    {r : Step Node} (h : Twin e p q) (ha : q.advance = (.ok t, q')) (hend : q'.HasEnd → r.2.HasEnd)
    (hstuck : ∀ {x p'}, p.advance = (.error x, p') → RunR p task (.error x, p'))
    (hgo : ∀ {p'}, p.advance = (.ok t, p') → Twin e p' q' → RunsBeside e p task r) :
    RunsBeside e p task r := by
  rcases (h.advance ha).2 with ⟨p', ha', htwin⟩ | ⟨p', ha', hq'⟩
  · exact hgo ha' htwin
  · exact ⟨_, hstuck ha', .parted (hend hq')⟩

/-- A task with another one within it, whose failure is its own: the parsers may part in there,
and if they do not, it is left to what comes behind. -/
theorem RunsBeside.next {e : LexError} {p p₁ q' : Parser} {task inner : Task}
    {x : Except ParseError Node} {r : Step Node} (h : RunsBeside e p₁ inner (x, q'))
    (hfails : ∀ {y p'}, RunR p₁ inner (.error y, p') → RunR p task (.error y, p'))
    (hend : q'.HasEnd → r.2.HasEnd)
    (hgo : ∀ {p'}, RunR p₁ inner (x, p') → Twin e p' q' → RunsBeside e p task r) :
    RunsBeside e p task r := by
  obtain ⟨s, hrun, hbeside⟩ := h
  cases hbeside with
  | alike htwin => exact hgo hrun htwin
  | parted hq' => exact ⟨_, hfails hrun, .parted (hend hq')⟩

theorem RunsBeside.fails {e : LexError} {p p₁ q' : Parser} {task inner : Task} {x : ParseError}
    (h : RunsBeside e p₁ inner (.error x, q'))
    (hfails : ∀ {y p'}, RunR p₁ inner (.error y, p') → RunR p task (.error y, p')) :
    RunsBeside e p task (.error x, q') :=
  h.next hfails id fun hrun htwin => ⟨_, hfails hrun, .alike htwin⟩

/-- Whatever the second parser does, the first does beside it. -/
theorem RunR.twin {e : LexError} {p q : Parser} {task : Task} {r : Step Node}
    (h : RunR q task r) (hpq : Twin e p q) : RunsBeside e p task r := by
  induction h generalizing p with
  | stuck ha | restStuck _ ha => cases (hpq.advance ha).1
  | atom ha hk =>
    refine hpq.runsBeside_of_advance ha id .stuck fun ha' htwin => ?_
    exact ⟨_, .atom ha' hk, .alike htwin⟩
  | noOperand ha hk =>
    refine hpq.runsBeside_of_advance ha id .stuck fun ha' htwin => ?_
    exact ⟨_, .noOperand ha' hk, .alike htwin⟩
  | negation ha hk hrun ih =>
    refine hpq.runsBeside_of_advance ha hrun.hasEnd .stuck fun ha' htwin => ?_
    refine (ih htwin).next (.negationFails ha' hk) id fun hrun' htwin' => ?_
    exact ⟨_, .negation ha' hk hrun', .alike htwin'⟩
  | negationFails ha hk hrun ih =>
    refine hpq.runsBeside_of_advance ha hrun.hasEnd .stuck fun ha' htwin => ?_
    exact (ih htwin).fails (.negationFails ha' hk)
  | groupFails ha hk hrun ih =>
    refine hpq.runsBeside_of_advance ha hrun.hasEnd .stuck fun ha' htwin => ?_
    exact (ih htwin).fails (.groupFails ha' hk)
  | group ha hk hrun hm ih =>
    have hclose := hasEnd_of_matchAndAdvance hm
    refine hpq.runsBeside_of_advance ha (fun hend => hclose (hrun.hasEnd hend)) .stuck
      fun ha' htwin => ?_
    refine (ih htwin).next (.groupFails ha' hk) hclose fun hrun' htwin' => ?_
    rcases htwin'.matchAndAdvance hm with ⟨p', hm', htwin''⟩ | ⟨p', hm', hend⟩
    · exact ⟨_, .group ha' hk hrun' hm', .alike htwin''⟩
    · exact ⟨_, .groupOpen ha' hk hrun' hm', .parted hend⟩
  | groupOpen ha hk hrun hm ih =>
    have hopen := hasEnd_of_matchAndAdvance hm
    refine hpq.runsBeside_of_advance ha (fun hend => hopen (hrun.hasEnd hend)) .stuck
      fun ha' htwin => ?_
    refine (ih htwin).next (.groupFails ha' hk) hopen fun hrun' htwin' => ?_
    rcases htwin'.matchAndAdvance hm with ⟨p', hm', htwin''⟩ | ⟨p', hm', hend⟩
    · exact ⟨_, .groupOpen ha' hk hrun' hm', .alike htwin''⟩
    · exact ⟨_, .groupOpen ha' hk hrun' hm', .parted hend⟩
  | expression hrun hrest ih₁ ih₂ =>
    refine (ih₁ hpq).next .expressionFails hrest.hasEnd fun hrun' htwin => ?_
    obtain ⟨s, hrest', hbeside⟩ := ih₂ htwin
    exact ⟨s, .expression hrun' hrest', hbeside⟩
  | expressionFails hrun ih => exact (ih hpq).fails .expressionFails
  | stop hm => exact ⟨_, .stop (hpq.lookahead ▸ hm), .alike hpq⟩
  | noOperator hm ha hk =>
    have hm' := hpq.lookahead ▸ hm
    refine hpq.runsBeside_of_advance ha id (.restStuck hm') fun ha' htwin => ?_
    exact ⟨_, .noOperator hm' ha' hk, .alike htwin⟩
  | operator hm ha hk hrun hrest ih₁ ih₂ =>
    have hm' := hpq.lookahead ▸ hm
    refine hpq.runsBeside_of_advance ha (fun hend => hrest.hasEnd (hrun.hasEnd hend))
      (.restStuck hm') fun ha' htwin => ?_
    refine (ih₁ htwin).next (.operatorFails hm' ha' hk) hrest.hasEnd fun hrun' htwin' => ?_
    obtain ⟨s, hrest', hbeside⟩ := ih₂ htwin'
    exact ⟨s, .operator hm' ha' hk hrun' hrest', hbeside⟩
  | operatorFails hm ha hk hrun ih =>
    have hm' := hpq.lookahead ▸ hm
    refine hpq.runsBeside_of_advance ha hrun.hasEnd (.restStuck hm') fun ha' htwin => ?_
    exact (ih htwin).fails (.operatorFails hm' ha' hk)

/-- A text and what stands before its bad character are read alike, unless the end of the latter
is scanned: there, the text has its lexical error. -/
theorem parseExpression_beside {input cut : String} {e : LexError} {ts : List Token}
    {s s' u u' : Scanner} {t : Token} (h : Scans (.ofString input) ts s)
    (hs : s.next = (.error e, u)) (h' : Scans (.ofString cut) ts s') (hs' : s'.next = (.ok t, u'))
    (hend : t.kind = .endOfInput) :
    (parseExpression input = parseExpression cut ∧ ¬ ScansEnd cut) ∨
      (parseExpression input = .error (.lex e) ∧ ScansEnd cut) := by
  cases h with
  | nil =>
    cases h'
    have hcut := ofString_of_next hs'
    refine .inr ⟨by rw [parseExpression, ofString, hs], _, hcut, ?_⟩
    exact (runR_perform _ (.expression 0)).hasEnd ⟨t, by simp, hend⟩
  | @cons _ s₁ _ t₁ ts hs₁ ht₁ h =>
    cases h' with
    | @cons _ s₁' _ _ _ hs₁' _ h' =>
    have htwin : Twin e ⟨s₁, t₁, #[t₁]⟩ ⟨s₁', t₁, #[t₁]⟩ :=
      ⟨rfl, ⟨ts, s, s', t, u, u', h, hs, h', hs', hend⟩, by simp [HasEnd, ht₁]⟩
    have hscans : ScansEnd cut ↔ (parse ⟨s₁', t₁, #[t₁]⟩ 0).2.HasEnd := by
      simp [ScansEnd, ofString_of_next hs₁']
    obtain ⟨r, hrun, hbeside⟩ := (runR_perform _ (.expression 0)).twin htwin
    have hr : parse ⟨s₁, t₁, #[t₁]⟩ 0 = r := hrun.perform_eq
    rw [perform] at hbeside
    rw [parseExpression_of_next hs₁, parseExpression_of_next hs₁', hscans, hr]
    generalize parse ⟨s₁', t₁, #[t₁]⟩ 0 = r' at hbeside
    cases hbeside with
    | alike htwin' => exact .inl ⟨rfl, htwin'.no_end⟩
    | parted hend' => exact .inr ⟨rfl, hend'⟩

/-- **A bad character is an error only where the parser comes to it.** A lexical error of parsing
is that of the text. When a text has one, parsing answers with it, or answers what it
answers to the text before the bad character: the latter just when it does not scan the end of
that text. No text with a lexical error is one expression as a whole. -/
theorem parseExpression_lexical (input : String) :
    (∀ e, parseExpression input = .error (.lex e) → tokenize input = .error e) ∧
    ∀ c pos, tokenize input = .error (.unexpectedCharacter c pos) →
      ∃ before after, input.toList = before ++ c :: after ∧ pos = Text.byteLength before ∧
        (parseExpression input = .error (.lex (.unexpectedCharacter c pos)) ∨
          parseExpression input = parseExpression (String.ofList before)) ∧
        (parseExpression input = parseExpression (String.ofList before) ↔
          ¬ ScansEnd (String.ofList before)) ∧
        ∀ tree, ¬ Whole input tree := by
  refine ⟨fun e => tokenize_of_parseExpression_lex, fun c pos h => ?_⟩
  obtain ⟨ts, s, u, hscans, hs⟩ := Scanner.exists_scans_of_error h
  obtain ⟨before, after, htext, hpos, s', u', hscans', hs'⟩ := hscans.around_error hs
  refine ⟨before, after, htext, hpos, ?_, ?_, fun tree hwhole => ?_⟩
  · rcases parseExpression_beside hscans hs hscans' hs' rfl with ⟨hsame, -⟩ | ⟨hlex, -⟩
    · exact .inr hsame
    · exact .inl hlex
  · rcases parseExpression_beside hscans hs hscans' hs' rfl with ⟨hsame, hno⟩ | ⟨hlex, hend⟩
    · exact iff_of_true hsame hno
    · refine iff_of_false (fun hsame => ?_) (not_not_intro hend)
      -- The text before the character has no lexical error that its parser could meet.
      have htok := tokenize_of_parseExpression_lex (hsame.symm.trans hlex)
      cases htok.symm.trans (hscans'.tokens_of_end hs' rfl)
  · obtain ⟨ts', s'', t, u'', hscans'', hs'', ht, -⟩ := whole_iff_scans.1 hwhole
    cases h.symm.trans (hscans''.tokens_of_end hs'' ht)

/-- The number is refused for the missing parenthesis before the question mark is met. -/
theorem parseExpression_lexical_open_group :
    tokenize "(1 2 ?" = .error (.unexpectedCharacter '?' 5) ∧
      parseExpression "(1 2 ?" = .error (.unexpectedToken .rightParen .number 3) ∧
      ¬ ScansEnd "(1 2 " := by
  have htok : tokenize "(1 2 ?" = .error (.unexpectedCharacter '?' 5) := by decide +kernel
  have hparse : parseExpression "(1 2 ?" = .error (.unexpectedToken .rightParen .number 3) := by
    decide +kernel
  have hcut : parseExpression "(1 2 " = .error (.unexpectedToken .rightParen .number 3) := by
    decide +kernel
  obtain ⟨before, after, htext, hpos, -, hiff, -⟩ :=
    (parseExpression_lexical "(1 2 ?").2 '?' 5 htok
  have hsplit : "(1 2 ?".toList = "(1 2 ".toList ++ ['?'] := rfl
  obtain ⟨rfl, -⟩ := Text.append_inj_byteLength (hsplit.symm.trans htext) hpos
  exact ⟨htok, hparse, hiff.1 (hparse.trans hcut.symm)⟩

/-- A parenthesis that begins no operand is refused only after the question mark is met. -/
example : parseExpression ") ?" = .error (.lex (.unexpectedCharacter '?' 2)) := by decide +kernel

end Condition.Parser
