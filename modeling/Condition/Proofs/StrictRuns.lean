/-
A run that asks for the end of the input beside one that does not.

The expression at the start of a text is read from the first tokens of the scanner's
stream, and the token behind them is the first that is left (`FirstLeft`). An expression goes on
at every operator and at every parenthesis, so if that token is not the end it is a number,
an identifier or a negation. A strict run that differs from the lenient one stops at this
token. Main statement: `execute_strict`.
-/
import Condition.Proofs.ParserRequests
import Condition.Proofs.Precedence
import Condition.Proofs.ResolvedVariables
import Condition.Proofs.RunOutcome

namespace Condition

namespace Parser

/-! ## The error of a missing token -/

theorem advance_error {p p' : Parser} {e : ParseError} (h : p.advance = (.error e, p')) :
    ∃ l, e = .lex l := by
  rcases p.advance_cases with ⟨q, hq, -, -⟩ | ⟨l, q, hq, -⟩
  · cases hq.symm.trans h
  · cases hq.symm.trans h
    exact ⟨l, rfl⟩

/-- The only token that an expression asks for is the one that closes a group. -/
theorem RunR.expects_rightParen {p : Parser} {task : Task} {r : Step Node} (h : RunR p task r)
    {kind found : TokenKind} {pos : Nat} (hr : r.1 = .error (.unexpectedToken kind found pos)) :
    kind = .rightParen := by
  -- A task hands on the errors of its parts; of its own, only an open group misses a token.
  induction h with
  | stuck ha | restStuck _ ha =>
    obtain ⟨l, rfl⟩ := advance_error ha
    cases hr
  | atom | negation | group | stop | noOperand | noOperator => cases hr
  | negationFails _ _ _ ih | groupFails _ _ _ ih | expressionFails _ ih
  | operatorFails _ _ _ _ ih => exact ih hr
  | expression _ _ _ ih | operator _ _ _ _ _ _ ih => exact ih hr
  | @groupOpen _ _ p₂ p' _ _ e _ _ _ hm =>
    rcases failsSafely_of_matchAndAdvance hm with ⟨he, -⟩ | ⟨l, he, -⟩
    · rw [he] at hr
      cases hr
      rfl
    · rw [he] at hr
      cases hr

theorem parseExpression_ne_expected_end (input : String) (found : TokenKind) (pos : Nat) :
    parseExpression input ≠ .error (.unexpectedToken .endOfInput found pos) := by
  intro h
  unfold parseExpression at h
  split at h
  · cases h
  · next p hp =>
    have hkind := (runR_perform p (.expression 0)).expects_rightParen h
    cases hkind

/-! ## The first token left -/

theorem Reads.tracks {stream : Nat → Token} {p p' : Parser} {ts : List Token}
    (h : Reads p ts p') (hp : Tracks stream p) :
    Tracks stream p' ∧ p'.advances = p.advances + ts.length ∧
      ts = (List.range ts.length).map fun i => stream (p.advances + i) := by
  induction h with
  | refl => exact ⟨hp, rfl, rfl⟩
  | @step p p₁ p' t ts ha _ _ ih =>
    have hp₁ : Tracks stream p₁ ∧ p₁.advances = p.advances + 1 := by
      have htracks := hp.advance
      have hr := p.advanceR
      rw [ha] at hr htracks
      cases hr with
      | takes => exact ⟨htracks, hp.advances_push _ _⟩
    -- The rest of the tokens is the stream from one place further on.
    obtain ⟨htracks, hcount, hts⟩ := ih hp₁.1
    refine ⟨htracks, by rw [hcount, hp₁.2, List.length_cons]; omega, ?_⟩
    rw [List.length_cons, List.range_succ_eq_map, List.map_cons, List.map_map]
    rw [advance_lookahead ha, hp.lookahead]
    refine congrArg (_ :: ·) (hts.trans (List.map_congr_left fun i _ => ?_))
    show stream (p₁.advances + i) = stream (p.advances + (i + 1))
    rw [hp₁.2, Nat.add_assoc, Nat.add_comm 1]

theorem advances_ofString {input : String} {p : Parser} (h : ofString input = .ok p) :
    p.advances = 0 := by
  unfold ofString at h
  split at h
  · cases h
    rfl
  · cases h

/-- The token `t` stands in the text at its place, right behind the tokens of its first
expression in the text's stream. -/
def FirstLeft (input : String) (t : Token) : Prop :=
  let stream := (Scanner.ofString input).stream
  ∃ p p' ts tree, ofString input = .ok p ∧ p.parse 0 = (.ok tree, p') ∧ Reads p ts p' ∧
    Sentence ts tree ∧ ts = (List.range ts.length).map stream ∧ t = stream ts.length ∧
    t.Within input.toList

theorem firstLeft_of_parse {input : String} {p p' : Parser} {tree : Node}
    (hp : ofString input = .ok p) (h : p.parse 0 = (.ok tree, p')) :
    FirstLeft input p'.lookahead := by
  obtain ⟨ts, hreads, hsentence⟩ := sentence_of_parse h
  obtain ⟨htracks, hcount, hts⟩ := hreads.tracks (tracks_ofString hp)
  rw [advances_ofString hp, Nat.zero_add] at hcount
  rw [advances_ofString hp] at hts
  simp only [Nat.zero_add] at hts
  have hlook : p'.lookahead = (Scanner.ofString input).stream ts.length := by
    rw [htracks.lookahead, hcount]
  refine ⟨p, p', ts, tree, hp, h, hreads, hsentence, hts, hlook, ?_⟩
  rw [hlook]
  exact (Scanner.within_ofString input).stream ts.length

end Parser

namespace Run

/-! ## Strict and lenient runs -/

/-- Asking for the end changes nothing, or an expression was read and the first token left is
not the end. -/
theorem parseInput_strict (input : String) :
    parseInput input true = parseExpression input ∨
      ∃ t tree, Parser.FirstLeft input t ∧
        (t.kind = .number ∨ t.kind = .identifier ∨ t.kind = .not) ∧
        parseExpression input = .ok tree ∧
        parseInput input true = .error (.unexpectedToken .endOfInput t.kind t.pos) := by
  unfold parseInput parseExpression
  rcases hp : Parser.ofString input with e | p
  · exact .inl rfl
  rcases hrun : p.parse 0 with ⟨e | tree, p'⟩
  · simp only [hrun, true_or]
  simp only [hrun, if_true]
  by_cases hend : p'.lookahead.kind = .endOfInput
  · rw [Parser.expectEnd_eq_ok.2 hend]
    exact .inl rfl
  · refine .inr ⟨p'.lookahead, tree, Parser.firstLeft_of_parse hp hrun,
      Parser.kind_of_parse hrun hend, rfl, ?_⟩
    rw [Parser.expectEnd, Parser.check, if_neg hend]
    rfl

/-- A run ends before its input is parsed, be it strict or not, or it goes on with variables. -/
theorem report_cases (w : Workspace) (o : Options) :
    (∃ e, (∀ strict, report w { o with strict } = .error e) ∧ ∀ p, e ≠ .parse p) ∨
      (isBlankInput o.input = false ∧
        ∃ vars, resolveVariables w o.config o.assignments = .ok vars) := by
  by_cases hblank : isBlankInput o.input = true
  · refine .inl ⟨.missingInput, fun strict => ?_, nofun⟩
    simp only [report, hblank, if_true]
    rfl
  have hinput : isBlankInput o.input = false := by simpa using hblank
  rcases hvars : resolveVariables w o.config o.assignments with e | vars
  · refine .inl ⟨e, fun strict => ?_, fun p hp => ?_⟩
    · simp only [report, hinput, hvars]
      rfl
    · subst hp
      rcases resolveVariables_error hvars with ⟨d, hd⟩ | ⟨d, hd⟩
      · cases hd
      · cases hd
  · exact .inr ⟨hinput, vars, rfl⟩

theorem execute_congr {w : Workspace} {o : Options}
    (h : parseInput o.input true = parseInput o.input false) :
    execute w { o with strict := true } = execute w { o with strict := false } := by
  simp only [execute, report, h]

theorem execute_of_tree {w : Workspace} {o : Options} {vars : Variables} {tree : Node}
    {e : RunError} (hblank : isBlankInput o.input = false)
    (hvars : resolveVariables w o.config o.assignments = .ok vars)
    (htree : parseInput o.input o.strict = .ok tree) (he : execute w o = .error e) :
    ∃ d, e = .evaluation d := by
  rcases hv : tree.evaluate vars with d | v
  · have hfails := execute_of_report_error (report_of_tree_error hblank hvars htree hv)
    exact ⟨d, Except.error.inj (he.symm.trans hfails)⟩
  · have hok := execute_of_report (report_of_tree_value hblank hvars htree hv)
    cases he.symm.trans hok

/-- A strict run ends as the lenient one, or at the first token left, where the lenient one goes
on to evaluate the tree. -/
theorem execute_strict_cases (w : Workspace) (o : Options) :
    let strict := execute w { o with strict := true }
    let lenient := execute w { o with strict := false }
    strict = lenient ∨
      ∃ t, Parser.FirstLeft o.input t ∧
        (t.kind = .number ∨ t.kind = .identifier ∨ t.kind = .not) ∧
        strict = .error (.parse (.unexpectedToken .endOfInput t.kind t.pos)) ∧
        ∀ e, lenient = .error e → ∃ d, e = .evaluation d := by
  intro strict lenient
  rcases parseInput_strict o.input with hsame | ⟨t, tree, hleft, hkind, htree, hend⟩
  · refine .inl (execute_congr ?_)
    rw [hsame, parseInput_lenient]
  rcases report_cases w o with ⟨e, he, -⟩ | ⟨hblank, vars, hvars⟩
  · refine .inl ?_
    show execute w _ = execute w _
    rw [execute_of_report_error (he true), execute_of_report_error (he false)]
  refine .inr ⟨t, hleft, hkind, ?_, fun e he => ?_⟩
  · exact execute_of_report_error
      (report_of_parse_error (o := { o with strict := true }) hblank hvars hend)
  · have hparse : parseInput o.input false = .ok tree := by rw [parseInput_lenient, htree]
    exact execute_of_tree (o := { o with strict := false }) hblank hvars hparse he

theorem execute_lenient_ne_expected_end (w : Workspace) (o : Options) (found : TokenKind)
    (pos : Nat) : execute w { o with strict := false } ≠
      .error (.parse (.unexpectedToken .endOfInput found pos)) := by
  intro h
  rcases report_cases w o with ⟨e, he, hne⟩ | ⟨hblank, vars, hvars⟩
  · have herror := Except.error.inj ((execute_of_report_error (he false)).symm.trans h)
    exact hne _ herror
  rcases htree : parseInput o.input false with p | tree
  · have hfails := execute_of_report_error
      (report_of_parse_error (o := { o with strict := false }) hblank hvars htree)
    cases hfails.symm.trans h
    rw [parseInput_lenient] at htree
    exact Parser.parseExpression_ne_expected_end o.input found pos htree
  · obtain ⟨d, hd⟩ := execute_of_tree (o := { o with strict := false }) hblank hvars htree h
    cases hd

/-- **Asking for the end of the input only takes results away.** What a strict run shows the
lenient one shows too, and an error of the lenient one before evaluation is that of the strict
one. Where they differ the strict run stops at the first token behind the expression, which is
a number, an identifier or a negation; no lenient run stops like that. -/
theorem execute_strict (w : Workspace) (o : Options) :
    let strict := execute w { o with strict := true }
    let lenient := execute w { o with strict := false }
    (∀ output, strict = .ok output → lenient = .ok output) ∧
    (∀ e, lenient = .error e → (∀ d, e ≠ .evaluation d) → strict = .error e) ∧
    (strict ≠ lenient → ∃ t, Parser.FirstLeft o.input t ∧
      (t.kind = .number ∨ t.kind = .identifier ∨ t.kind = .not) ∧
      strict = .error (.parse (.unexpectedToken .endOfInput t.kind t.pos))) ∧
    ∀ found pos, lenient ≠ .error (.parse (.unexpectedToken .endOfInput found pos)) := by
  intro strict lenient
  have hnever := execute_lenient_ne_expected_end w o
  rcases execute_strict_cases w o with hsame | ⟨t, hleft, hkind, hstrict, hlenient⟩
  · exact ⟨fun output h => hsame.symm.trans h, fun e h _ => hsame.trans h,
      fun hne => absurd hsame hne, hnever⟩
  · refine ⟨fun output h => ?_, fun e h hne => ?_, fun _ => ⟨t, hleft, hkind, hstrict⟩, hnever⟩
    · cases hstrict.symm.trans h
    · obtain ⟨d, rfl⟩ := hlenient e h
      exact absurd rfl (hne d)

/-- A number behind the expression stops the strict run only. -/
example :
    (Run.execute (.ofFiles [] []) ⟨"1 2", "", none, true, false, 0, .text⟩ =
      .error (.parse (.unexpectedToken .endOfInput .number 2))) ∧
    Run.execute (.ofFiles [] []) ⟨"1 2", "", none, false, false, 0, .text⟩ =
      .ok "evaluated result is true" := by decide +kernel

end Run
end Condition
