/-
How often a parser calls its scanner.

An advance is one call of the scanner, and nothing else calls it or changes the parser. So the way
from one state to another is told by the calls made on it (`Calls`), and these by the two states,
for no advance leaves the parser as it was (`Calls.unique`).

A run that succeeds has read tokens and nothing more. One that fails has read tokens and then met
one of three things (`BreaksOff`): an error of the scanner; the end where an operand should begin,
which scans the end once more; or another token out of place, for which nothing more is scanned.
Main statement: `parse_calls`.
-/
import Condition.Journal
import Condition.Proofs.ConsumedTokens
import Condition.Proofs.LexicalErrors

namespace Condition

/-! ## What scanning a text comes to -/

namespace Scanner

theorem pos_le_next (s : Scanner) : s.pos ≤ s.next.2.pos := by
  have hr := s.nextR
  generalize s.next = r at hr
  cases hr with
  | finish => exact Nat.le_add_right _ _
  | @lexeme gap t rest pos _ _ _ hpos =>
    show pos ≤ t.pos + _
    omega
  | @invalid gap c rest pos =>
    show pos ≤ pos + _ + _
    omega

theorem Scans.snoc {s s' u : Scanner} {ts : List Token} {t : Token} (h : Scans s ts s')
    (hs' : s'.next = (.ok t, u)) (ht : t.kind ≠ .endOfInput) : Scans s (ts ++ [t]) u := by
  induction h with
  | nil => exact .cons hs' ht .nil
  | cons hs hne _ ih => exact .cons hs hne (ih hs')

theorem Scans.prefix_of_tokens {s s' u : Scanner} {ts us : List Token} {t : Token}
    (h : Scans s ts s') (hs' : s'.next = (.ok t, u)) (htok : s.tokens = .ok us) :
    ts ++ [t] <+: us := by
  rw [h.tokens_eq, Scanner.tokens_eq, hs'] at htok
  by_cases hend : t.kind = .endOfInput
  · simp only [hend, if_true, Except.map, Except.ok.injEq] at htok
    exact htok ▸ List.prefix_refl _
  · simp only [hend, if_false] at htok
    cases hrest : u.tokens with
    | error e => simp [hrest, Except.map] at htok
    | ok vs =>
      simp only [hrest, Except.map, Except.ok.injEq] at htok
      exact ⟨vs, by simpa using htok⟩

/-- What is read on the way to the error is read before it. -/
theorem Scans.toward_error {s s' s'' u : Scanner} {ts us : List Token} {e : LexError}
    (h : Scans s ts s') (h' : Scans s us s'') (hs'' : s''.next = (.error e, u)) :
    ∃ vs, us = ts ++ vs ∧ Scans s' vs s'' := by
  induction h generalizing us with
  | nil => exact ⟨us, rfl, h'⟩
  | cons hs _ _ ih =>
    cases h' with
    | nil => cases hs.symm.trans hs''
    | cons hs₁ _ h' =>
      cases hs.symm.trans hs₁
      obtain ⟨vs, rfl, hvs⟩ := ih h'
      exact ⟨vs, rfl, hvs⟩

theorem Scans.prefix_of_error {s s' s'' u u' : Scanner} {ts us : List Token} {t : Token}
    {e : LexError} (h : Scans s ts s') (hs' : s'.next = (.ok t, u)) (h' : Scans s us s'')
    (hs'' : s''.next = (.error e, u')) : ts ++ [t] <+: us := by
  obtain ⟨vs, rfl, hvs⟩ := h.toward_error h' hs''
  cases hvs with
  | nil => cases hs'.symm.trans hs''
  | @cons _ _ _ _ vs hs =>
    cases hs'.symm.trans hs
    exact ⟨vs, by simp⟩

theorem Scans.eq_of_error {s s' s'' u u' : Scanner} {ts us : List Token} {e e' : LexError}
    (h : Scans s ts s') (hs' : s'.next = (.error e, u)) (h' : Scans s us s'')
    (hs'' : s''.next = (.error e', u')) : ts = us ∧ e = e' := by
  obtain ⟨vs, rfl, hvs⟩ := h.toward_error h' hs''
  cases hvs with
  | nil =>
    cases hs'.symm.trans hs''
    exact ⟨(List.append_nil ts).symm, rfl⟩
  | cons hs => cases hs'.symm.trans hs

theorem Scans.tokens_of_error {s s' u : Scanner} {ts : List Token} {e : LexError}
    (h : Scans s ts s') (hs' : s'.next = (.error e, u)) : s.tokens = .error e := by
  rw [h.tokens_eq, Scanner.tokens_eq, hs']
  rfl

end Scanner

namespace Parser

open Scanner (Scans)

/-! ## Calls of the scanner -/

/-- From the one state to the other by advances, one after another, each of which has called the
scanner for this answer. -/
inductive Calls : Parser → List (Except LexError Token) → Parser → Prop
  | nil {p} : Calls p [] p
  | cons {p p' as} : Calls p.advance.2 as p' → Calls p (p.scanner.next.1 :: as) p'

theorem Calls.snoc {p q : Parser} {as : List (Except LexError Token)} (h : Calls p as q) :
    Calls p (as ++ [q.scanner.next.1]) q.advance.2 := by
  induction h with
  | nil => exact .cons .nil
  | cons _ ih => exact .cons ih

theorem Calls.of_advance {p q q' : Parser} {as : List (Except LexError Token)}
    {r : Except ParseError Token} (h : Calls p as q) (ha : q.advance = (r, q')) :
    Calls p (as ++ [q.scanner.next.1]) q' := by
  have hsnoc := h.snoc
  rwa [ha] at hsnoc

/-- Grows with every advance: with a token by the token, with an error by the character passed. -/
def progress (p : Parser) : Nat := p.scanned.size + p.scanner.pos

theorem progress_advance (p : Parser) : p.progress < p.advance.2.progress := by
  have hr := p.advanceR
  have hle := p.scanner.pos_le_next
  generalize p.advance = r at hr
  cases hr with
  | @takes t s hs =>
    have hpos : p.scanner.pos ≤ s.pos := by
      rw [hs] at hle
      exact hle
    show p.scanned.size + p.scanner.pos < (p.scanned.push t).size + s.pos
    rw [Array.size_push]
    omega
  | @passes e s hs =>
    obtain ⟨c, gap, -, -, -, hpos⟩ := Scanner.passes_of_next hs
    have := c.utf8Size_pos
    show p.scanned.size + p.scanner.pos < p.scanned.size + s.pos
    omega

theorem Calls.progress_le {p p' : Parser} {as : List (Except LexError Token)} (h : Calls p as p') :
    p.progress + as.length ≤ p'.progress := by
  induction h with
  | nil => exact Nat.le_refl _
  | @cons p p' as _ ih =>
    have := p.progress_advance
    rw [List.length_cons]
    omega

/-- The calls between two states are told by the states. -/
theorem Calls.unique {p p' : Parser} {as bs : List (Except LexError Token)} (h : Calls p as p')
    (h' : Calls p bs p') : bs = as := by
  induction h generalizing bs with
  | nil =>
    have := h'.progress_le
    exact List.eq_nil_of_length_eq_zero (by omega)
  | @cons p p' as h ih =>
    cases h' with
    | nil =>
      have := p.progress_advance
      have := h.progress_le
      omega
    | cons h' => rw [ih h']

/-- The answers are the scanner's first. -/
theorem Calls.eq_answers {p p' : Parser} {as : List (Except LexError Token)} (h : Calls p as p') :
    as = (p.scanner.answers as.length).map Prod.fst := by
  induction h with
  | nil => rfl
  | @cons p p' as _ ih =>
    have hscanner : p.advance.2.scanner = p.scanner.next.2 := by
      have hr := p.advanceR
      generalize p.advance = r at hr
      cases hr with
      | takes hs | passes hs => rw [hs]
    rw [hscanner] at ih
    rw [List.length_cons, Scanner.answers, List.map_cons, ← ih]

theorem Calls.scanned_eq {p p' : Parser} {as : List (Except LexError Token)} (h : Calls p as p') :
    p'.scanned.toList = p.scanned.toList ++ as.filterMap Except.toOption := by
  induction h with
  | nil => simp
  | @cons p p' as _ ih =>
    rw [ih]
    have hr := p.advanceR
    generalize p.advance = r at hr
    cases hr with
    | takes hs => simp [hs, Except.toOption]
    | passes hs => rw [hs, List.filterMap_cons_none rfl]

/-- With the call for the first lookahead, those for tokens that are read answer with these tokens
and the lookahead then. -/
theorem Reads.calls {p p' : Parser} {ts : List Token} (h : Reads p ts p') :
    ∃ as, Calls p as p' ∧ .ok p.lookahead :: as = (ts ++ [p'.lookahead]).map Except.ok := by
  induction h with
  | refl => exact ⟨[], .nil, rfl⟩
  | @step p p₁ p' t ts ha _ _ ih =>
    obtain ⟨as, hcalls, heq⟩ := ih
    have hfrom := from_of_advance ha
    obtain rfl := advance_lookahead ha
    have hanswer : p.scanner.next.1 = .ok p₁.lookahead := congrArg Prod.fst hfrom
    have hstate : p₁ = p.advance.2 := (congrArg Prod.snd ha).symm
    refine ⟨p.scanner.next.1 :: as, .cons (hstate ▸ hcalls), ?_⟩
    rw [hanswer, heq]
    rfl

/-! ## Where a run fails -/

/-- A run has failed behind tokens that it has read: at an error of the scanner, at the end where an
operand should begin, or at another token out of place, the lookahead or the last one read. -/
inductive BreaksOff (p : Parser) : ParseError → Parser → Prop
  | invalid {ts q e p'} : Reads p ts q → q.advance = (.error (.lex e), p') →
      BreaksOff p (.lex e) p'
  | pastEnd {ts q p'} : Reads p ts q → q.lookahead.kind = .endOfInput →
      q.advance = (.ok q.lookahead, p') →
      BreaksOff p (.dispatch .endOfInput .leading q.lookahead.pos) p'
  | misplaced {ts e p'} : Reads p ts p' → (∀ e', e ≠ .lex e') →
      (∀ pos, e ≠ .dispatch .endOfInput .leading pos) → BreaksOff p e p'

theorem BreaksOff.behind {p q p' : Parser} {ts : List Token} {e : ParseError} (h : Reads p ts q)
    (hbreaks : BreaksOff q e p') : BreaksOff p e p' := by
  cases hbreaks with
  | invalid hreads ha => exact .invalid (h.trans hreads) ha
  | pastEnd hreads hend ha => exact .pastEnd (h.trans hreads) hend ha
  | misplaced hreads hlex hend => exact .misplaced (h.trans hreads) hlex hend

theorem breaksOff_of_advance {p p' : Parser} {e : ParseError} (ha : p.advance = (.error e, p')) :
    BreaksOff p e p' := by
  have hr := p.advanceR
  rw [ha] at hr
  cases hr with
  | passes => exact .invalid .refl ha

theorem breaksOff_of_matchAndAdvance {p p' : Parser} {kind : TokenKind} {e : ParseError}
    (hm : p.matchAndAdvance kind = (.error e, p')) : BreaksOff p e p' := by
  rcases p.matchAndAdvance_cases kind with ⟨-, h⟩ | ⟨-, h⟩
  · cases h.symm.trans hm
    exact .misplaced .refl nofun nofun
  · rw [h] at hm
    rcases ha : p.advance with ⟨e' | t, q⟩
    · rw [ha] at hm
      cases hm
      exact breaksOff_of_advance ha
    · rw [ha] at hm
      cases hm

theorem RunR.breaksOff {p p' : Parser} {task : Task} {r : Step Node} {e : ParseError}
    (h : RunR p task r) (hr : r = (.error e, p')) : BreaksOff p e p' := by
  induction h with
  | atom | negation | group | stop => cases hr
  | stuck ha | restStuck _ ha =>
    cases hr
    exact breaksOff_of_advance ha
  | negationFails ha hk _ ih | groupFails ha hk _ ih | operatorFails _ ha hk _ ih =>
    exact (ih hr).behind (Reads.one ha (by rw [hk]; nofun))
  | groupOpen ha hk hrun hm =>
    cases hr
    obtain ⟨ts, hreads⟩ := hrun.reads
    exact (breaksOff_of_matchAndAdvance hm).behind
      ((Reads.one ha (by rw [hk]; nofun)).trans hreads)
  | @noOperand p p' t ha hk =>
    cases hr
    obtain rfl := advance_lookahead ha
    by_cases hend : p.lookahead.kind = .endOfInput
    · rw [hend]
      exact .pastEnd .refl hend ha
    · exact .misplaced (Reads.one ha hend) nofun (by simp [hend])
  | expression hrun _ _ ih =>
    obtain ⟨ts, hreads⟩ := hrun.reads
    exact (ih hr).behind hreads
  | expressionFails _ ih => exact ih hr
  | operator _ ha hk hrun _ _ ih =>
    obtain ⟨ts, hreads⟩ := hrun.reads
    exact (ih hr).behind ((Reads.one ha (by rw [hk]; nofun)).trans hreads)
  | @noOperator p p' m left t hm ha hk =>
    cases hr
    obtain rfl := advance_lookahead ha
    -- The end has no power, so it is not taken behind an operand.
    refine .misplaced (Reads.one ha fun hend => ?_) nofun (by simp)
    rw [hend] at hm
    exact Nat.not_lt_zero _ hm

/-! ## The calls for an expression -/

/-- What the calls made for a parser of the text and an outcome of it answer, one after another. -/
inductive Tally (input : String) (p : Parser) : List (Except LexError Token) → Step Node → Prop
  /-- Tokens have been read, and the one behind them is the lookahead. -/
  | read {ts s r p'} : Reads p ts p' → Scans (.ofString input) ts s →
      s.next = (.ok p'.lookahead, p'.scanner) → (∀ e, r ≠ .error (.lex e)) →
      (∀ pos, r ≠ .error (.dispatch .endOfInput .leading pos)) →
      Tally input p ((ts ++ [p'.lookahead]).map .ok) (r, p')
  | invalid {ts s u e p'} : Scans (.ofString input) ts s → s.next = (.error e, u) →
      Tally input p (ts.map .ok ++ [.error e]) (.error (.lex e), p')
  /-- The end has been scanned twice. -/
  | pastEnd {ts s u t p'} : Scans (.ofString input) ts s → s.next = (.ok t, u) →
      t.kind = .endOfInput →
      Tally input p ((ts ++ [t] ++ [t]).map .ok) (.error (.dispatch .endOfInput .leading t.pos), p')

theorem tally_of_parse {input : String} {p : Parser} (hp : ofString input = .ok p) (m : Nat) :
    ∃ as, Calls p as (p.parse m).2 ∧ Tally input p (.ok p.lookahead :: as) (p.parse m) := by
  have hrun : RunR p (.expression m) (p.parse m) := runR_perform p (.expression m)
  have hfrom := from_ofString hp
  generalize p.parse m = r at hrun
  obtain ⟨e | n, p'⟩ := r
  · cases hrun.breaksOff rfl with
    | @invalid ts q e _ hreads ha =>
      obtain ⟨as, hcalls, heq⟩ := hreads.calls
      obtain ⟨s, hscans, hs⟩ := hreads.scans hfrom
      have hr := q.advanceR
      rw [ha] at hr
      cases hr with
      | passes herr =>
        -- Behind the end there are no errors, so the lookahead was a token before it.
        have hend : q.lookahead.kind ≠ .endOfInput := fun hend => by
          cases herr.symm.trans (Scanner.next_end hs hend)
        refine ⟨_, hcalls.of_advance ha, ?_⟩
        rw [← List.cons_append, heq, herr]
        exact .invalid (hscans.snoc hs hend) herr
    | @pastEnd ts q _ hreads hend ha =>
      obtain ⟨as, hcalls, heq⟩ := hreads.calls
      obtain ⟨s, hscans, hs⟩ := hreads.scans hfrom
      refine ⟨_, hcalls.of_advance ha, ?_⟩
      rw [← List.cons_append, heq, Scanner.next_end hs hend]
      have htally : Tally input p _ (.error _, p') := .pastEnd hscans hs hend
      rwa [List.map_append] at htally
    | @misplaced ts e _ hreads hlex hend =>
      obtain ⟨as, hcalls, heq⟩ := hreads.calls
      obtain ⟨s, hscans, hs⟩ := hreads.scans hfrom
      refine ⟨as, hcalls, heq ▸ .read hreads hscans hs ?_ ?_⟩
      · exact fun e' he => hlex e' (Except.error.inj he)
      · exact fun pos he => hend pos (Except.error.inj he)
  · obtain ⟨ts, hreads⟩ := hrun.reads
    obtain ⟨as, hcalls, heq⟩ := hreads.calls
    obtain ⟨s, hscans, hs⟩ := hreads.scans hfrom
    exact ⟨as, hcalls, heq ▸ .read hreads hscans hs nofun nofun⟩

theorem Tally.reads_of_ok {input : String} {p p' : Parser} {n : Node}
    {calls : List (Except LexError Token)} {r : Step Node} (h : Tally input p calls r)
    (hr : r = (.ok n, p')) :
    ∃ ts, Reads p ts p' ∧ calls = (ts ++ [p'.lookahead]).map .ok := by
  cases h with
  | read hreads =>
    cases hr
    exact ⟨_, hreads, rfl⟩
  | invalid | pastEnd => cases hr

/-- The calls were answered with some of the first tokens; or with all of them and then with one
thing more, for which the expression was refused. -/
def CallsWithin (us : List Token) (more : Except LexError Token) (refusal : ParseError)
    (calls : List (Except LexError Token)) (r : Except ParseError Node) : Prop :=
  (r = .error refusal ∧ calls = us.map .ok ++ [more]) ∨
    r ≠ .error refusal ∧ ∃ vs, vs <+: us ∧ calls = vs.map .ok

theorem CallsWithin.length_le {us : List Token} {more : Except LexError Token}
    {refusal : ParseError} {calls : List (Except LexError Token)} {r : Except ParseError Node}
    (h : CallsWithin us more refusal calls r) : calls.length ≤ us.length + 1 := by
  rcases h with ⟨-, rfl⟩ | ⟨-, vs, hvs, rfl⟩
  · simp
  · have := hvs.length_le
    rw [List.length_map]
    omega

/-- Without an error ahead, the one thing more is the end once more. -/
theorem Tally.within_tokens {input : String} {p : Parser} {calls : List (Except LexError Token)}
    {r : Step Node} (h : Tally input p calls r) {us : List Token} (htok : tokenize input = .ok us) :
    CallsWithin us (.ok (endAt input.utf8ByteSize))
      (.dispatch .endOfInput .leading input.utf8ByteSize) calls r.1 := by
  cases h with
  | read _ hscans hs _ hend => exact .inr ⟨hend _, _, hscans.prefix_of_tokens hs htok, rfl⟩
  | invalid hscans hs => cases htok.symm.trans (hscans.tokens_of_error hs)
  | @pastEnd ts s u t _ hscans hs hend =>
    cases htok.symm.trans (hscans.tokens_of_end hs hend)
    have hpos := hscans.pos_of_end hs hend
    have ht : t = endAt input.utf8ByteSize := by
      rw [← hpos]
      have hr := s.nextR
      rw [hs] at hr
      cases hr with
      | finish => rfl
      | lexeme _ hwf => exact absurd hend hwf.kind_ne
    exact .inl ⟨by rw [← hpos], by rw [List.map_append, ← ht]; rfl⟩

/-- With an error ahead, it is that error. -/
theorem Tally.within_error {input : String} {p : Parser} {calls : List (Except LexError Token)}
    {r : Step Node} (h : Tally input p calls r) {us : List Token} {s u : Scanner} {e : LexError}
    (hus : Scans (.ofString input) us s) (he : s.next = (.error e, u)) :
    CallsWithin us (.error e) (.lex e) calls r.1 := by
  cases h with
  | read _ hscans hs hlex => exact .inr ⟨hlex e, _, hscans.prefix_of_error hs hus he, rfl⟩
  | invalid hscans hs =>
    obtain ⟨rfl, rfl⟩ := hscans.eq_of_error hs hus he
    exact .inl ⟨rfl, rfl⟩
  | pastEnd hscans hs hend =>
    cases (hscans.tokens_of_end hs hend).symm.trans (hus.tokens_of_error he)

/-- **An expression is read with one token of lookahead.** A text whose first token is an error is
refused with the one call that meets it. Otherwise there is a parser, its run comes to an end, and
what the scanner was called for on the way, the first lookahead included, is told by the states
before and behind it. The answers are the scanner's first, each token of them leaves its record, and

- if an expression is read, they are the tokens taken for it and one more;
- if the text has tokens, they are some of the first of these, or all of them and then the end once
  more, where the end was refused as an operand;
- if it has an error, they are some of the first tokens before it, or all of these and then the
  error. -/
theorem parse_calls (input : String) (m : Nat) :
    (∀ e, ofString input = .error e →
      (Scanner.ofString input).next.1 = .error e ∧ tokenize input = .error e) ∧
    ∀ p, ofString input = .ok p → RunR p (.expression m) (p.parse m) ∧
      ∃ as, Calls p as (p.parse m).2 ∧ (∀ bs, Calls p bs (p.parse m).2 → bs = as) ∧
        let calls := .ok p.lookahead :: as
        calls = ((Scanner.ofString input).answers calls.length).map Prod.fst ∧
        (Journal.ofScanned (p.parse m).2.scanned =
          (calls.filterMap Except.toOption).map fun t =>
            ⟨.trace, "bexpr_eval::parser", "scanned " ++ t.render ++ " at " ++ toString t.pos⟩) ∧
        (∀ n p', p.parse m = (.ok n, p') → ∃ ts, Reads p ts p' ∧
          calls = (ts ++ [p'.lookahead]).map .ok ∧ calls.length = ts.length + 1) ∧
        (∀ us, tokenize input = .ok us → calls.length ≤ us.length + 1 ∧
          CallsWithin us (.ok (endAt input.utf8ByteSize))
            (.dispatch .endOfInput .leading input.utf8ByteSize) calls (p.parse m).1) ∧
        ∀ e, tokenize input = .error e → ∃ us s u, Scans (.ofString input) us s ∧
          s.next = (.error e, u) ∧ calls.length ≤ us.length + 1 ∧
          CallsWithin us (.error e) (.lex e) calls (p.parse m).1 := by
  refine ⟨fun e he => ?_, fun p hp => ⟨runR_perform p (.expression m), ?_⟩⟩
  · unfold ofString at he
    split at he
    · cases he
    · next s hs =>
      cases he
      exact ⟨by rw [hs], by rw [tokenize, Scanner.tokens_eq, hs]⟩
  · obtain ⟨as, hcalls, htally⟩ := tally_of_parse hp m
    have hfirst := from_ofString hp
    have hstart : p.scanned = #[p.lookahead] := by
      rw [ofString_of_next hfirst] at hp
      exact (congrArg Parser.scanned (Except.ok.inj hp)).symm
    refine ⟨as, hcalls, fun bs => hcalls.unique, ?_, ?_, fun n p' hparse => ?_, fun us htok => ?_,
      fun e he => ?_⟩
    · rw [List.length_cons, Scanner.answers, hfirst, List.map_cons, ← hcalls.eq_answers]
    · rw [Journal.ofScanned, hcalls.scanned_eq, hstart]
      rfl
    · obtain ⟨ts, hreads, hall⟩ := htally.reads_of_ok hparse
      exact ⟨ts, hreads, hall, by rw [hall]; simp⟩
    · have hwithin := htally.within_tokens htok
      exact ⟨hwithin.length_le, hwithin⟩
    · obtain ⟨us, s, u, hscans, hs⟩ := Scanner.exists_scans_of_error he
      have hwithin := htally.within_error hscans hs
      exact ⟨us, s, u, hscans, hs, hwithin.length_le, hwithin⟩

/-- The operand of the sum is looked for behind the end: three tokens, and four calls. -/
theorem parse_calls_past_end :
    ∃ p as, ofString "1 +" = .ok p ∧
      (p.parse 0).1 = .error (.dispatch .endOfInput .leading 3) ∧ Calls p as (p.parse 0).2 ∧
      tokenize "1 +" =
        .ok [⟨.number, "1", 0⟩, ⟨.operator (.arithmetic .plus), "", 2⟩, ⟨.endOfInput, "", 3⟩] ∧
      .ok p.lookahead :: as = [.ok ⟨.number, "1", 0⟩,
        .ok ⟨.operator (.arithmetic .plus), "", 2⟩, .ok ⟨.endOfInput, "", 3⟩,
        .ok ⟨.endOfInput, "", 3⟩] := by
  have hp : ofString "1 +" =
      .ok ⟨⟨[' ', '+'], 1⟩, ⟨.number, "1", 0⟩, #[⟨.number, "1", 0⟩]⟩ := by rfl
  have htok : tokenize "1 +" = .ok [⟨.number, "1", 0⟩, ⟨.operator (.arithmetic .plus), "", 2⟩,
      ⟨.endOfInput, "", 3⟩] := by decide +kernel
  have hparse : (parse ⟨⟨[' ', '+'], 1⟩, ⟨.number, "1", 0⟩, #[⟨.number, "1", 0⟩]⟩ 0).1 =
      .error (.dispatch .endOfInput .leading 3) := by decide +kernel
  obtain ⟨-, as, hcalls, -, -, -, -, htokens, -⟩ := (parse_calls "1 +" 0).2 _ hp
  rcases (htokens _ htok).2 with ⟨-, hall⟩ | ⟨hne, -⟩
  · exact ⟨_, as, hp, hparse, hcalls, htok, hall⟩
  · exact absurd hparse hne

end Parser
end Condition
