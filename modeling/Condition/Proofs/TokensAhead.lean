/-
The tokens a parser has ahead of it: its lookahead and what its scanner still gives
(`Parser.tokens`). At the start they are the tokens of the text, and taking one
removes it from the front, so what the parser has read and what is ahead of it make
up the text (`Reads.tokens_eq`).
-/
import Condition.Parser

namespace Condition

/-! ## The end of the text -/

theorem TokenKind.symbol?_of_keyword? {word : String} {kind : TokenKind}
    (h : keyword? word = some kind) : kind.symbol? = some word := by
  unfold keyword? at h
  split at h
  · next hw => cases h; simp [symbol?, Operator.symbol, hw]
  split at h
  · next hw => cases h; simp [symbol?, Operator.symbol, hw]
  split at h
  · next hw => cases h; simp [symbol?, hw]
  · cases h

namespace Scanner

theorem wordToken_kind_ne (text : String) (pos : Nat) :
    (wordToken text pos).kind ≠ .endOfInput := by
  unfold wordToken
  split
  · next kind h =>
    intro he
    have := TokenKind.symbol?_of_keyword? h
    simp_all [TokenKind.symbol?]
  · simp

theorem skipWhile_of_rest_nil {p : Char → Bool} {s : Scanner} (h : s.rest = []) :
    s.skipWhile p = s := by
  cases s
  subst h
  rfl

/-- Only the end of the text is read as the end, and the scanner stays there. -/
theorem read_eq_end {s s' : Scanner} {t : Token} (h : s.read = (.ok t, s'))
    (ht : t.kind = .endOfInput) : s.rest = [] ∧ s' = s := by
  unfold read at h
  split at h
  · next hs => cases h; exact ⟨hs, rfl⟩
  next c cs hs =>
  split at h
  · next kind width hw => cases h; exact absurd ht (symbol?_width_pos hw).2
  split at h
  · cases h; simp at ht
  split at h
  · cases h; exact absurd ht (wordToken_kind_ne _ _)
  · cases h

theorem next_end {s s' : Scanner} {t : Token} (h : s.next = (.ok t, s'))
    (ht : t.kind = .endOfInput) : s'.next = (.ok t, s') := by
  obtain ⟨hrest, rfl⟩ := read_eq_end h ht
  rw [next, skipWhile_of_rest_nil hrest]
  exact h

end Scanner

namespace Parser

/-- The tokens from the lookahead on, the end last, or the first error among them. -/
def tokens (p : Parser) : Except LexError (List Token) :=
  if p.lookahead.kind = .endOfInput then .ok [p.lookahead]
  else p.scanner.tokens.map (p.lookahead :: ·)

/-- A parser that has the end as its lookahead has its scanner there. -/
def Settled (p : Parser) : Prop :=
  p.lookahead.kind = .endOfInput → p.scanner.next = (.ok p.lookahead, p.scanner)

theorem ofString_eq (input : String) :
    (∃ p, ofString input = .ok p ∧ p.Settled ∧ tokenize input = p.tokens) ∨
      ∃ e, ofString input = .error e ∧ tokenize input = .error e := by
  unfold ofString tokenize
  rw [Scanner.tokens_eq]
  split
  · next t s hs =>
    refine .inl ⟨_, rfl, fun ht => Scanner.next_end hs ht, ?_⟩
    simp [tokens, hs]
  · next e s hs => exact .inr ⟨e, rfl, by simp [hs]⟩

theorem advance_cases (p : Parser) :
    (∃ p', p.advance = (.ok p.lookahead, p') ∧ p'.Settled ∧ p.scanner.tokens = p'.tokens) ∨
      ∃ e p', p.advance = (.error (.lex e), p') ∧ p.scanner.tokens = .error e := by
  unfold advance
  rw [Scanner.tokens_eq]
  split
  · next t s hs =>
    refine .inl ⟨_, rfl, fun ht => Scanner.next_end hs ht, ?_⟩
    simp [tokens, hs]
  · next e s hs => exact .inr ⟨e, _, rfl, by simp [hs]⟩

theorem tokens_of_ne {p : Parser} (h : p.lookahead.kind ≠ .endOfInput) :
    p.tokens = p.scanner.tokens.map (p.lookahead :: ·) := by
  rw [tokens, if_neg h]

theorem tokens_head {p : Parser} {ts : List Token} (h : p.tokens = .ok ts) :
    ∃ us, ts = p.lookahead :: us := by
  unfold tokens at h
  split at h
  · cases h; exact ⟨[], rfl⟩
  · cases hs : p.scanner.tokens with
    | error e => simp [hs, Except.map] at h
    | ok us =>
      simp only [hs, Except.map, Except.ok.injEq] at h
      exact ⟨us, h.symm⟩

theorem advance_of_tokens {p : Parser} {ts : List Token} (hs : p.Settled) (h : p.tokens = .ok ts) :
    ∃ p', p.advance = (.ok p.lookahead, p') ∧ p'.Settled ∧
      (p.lookahead.kind ≠ .endOfInput → ∃ us, ts = p.lookahead :: us ∧ p'.tokens = .ok us) := by
  by_cases hend : p.lookahead.kind = .endOfInput
  · refine ⟨⟨p.scanner, p.lookahead, p.scanned.push p.lookahead⟩, ?_, hs,
      fun hne => absurd hend hne⟩
    rw [advance, hs hend]
  · rw [tokens_of_ne hend] at h
    rcases p.advance_cases with ⟨p', ha, hs', htok⟩ | ⟨e, p', -, htok⟩
    · rw [htok] at h
      cases hp : p'.tokens with
      | error e => simp [hp, Except.map] at h
      | ok us =>
        simp only [hp, Except.map, Except.ok.injEq] at h
        exact ⟨p', ha, hs', fun _ => ⟨us, h.symm, hp⟩⟩
    · simp [htok, Except.map] at h

theorem tokens_of_advance {p p' : Parser} {t : Token} {ts : List Token} (hs : p.Settled)
    (h : p.tokens = .ok ts) (ha : p.advance = (.ok t, p')) (ht : t.kind ≠ .endOfInput) :
    ∃ us, ts = t :: us ∧ p'.Settled ∧ p'.tokens = .ok us := by
  obtain ⟨q, hq, hs', hnext⟩ := advance_of_tokens hs h
  obtain rfl := advance_lookahead ha
  rw [ha] at hq
  cases hq
  obtain ⟨us, hus, htok⟩ := hnext ht
  exact ⟨us, hus, hs', htok⟩

/-! ## Reading tokens -/

/-- The parser takes these tokens one after another, none of them the end. -/
inductive Reads : Parser → List Token → Parser → Prop
  | refl {p} : Reads p [] p
  | step {p p₁ p' t ts} : p.advance = (.ok t, p₁) → t.kind ≠ .endOfInput → Reads p₁ ts p' →
      Reads p (t :: ts) p'

theorem Reads.one {p p' : Parser} {t : Token} (h : p.advance = (.ok t, p'))
    (ht : t.kind ≠ .endOfInput) : Reads p [t] p' :=
  .step h ht .refl

theorem Reads.trans {p₁ p₂ p₃ : Parser} {ts us : List Token} (h₁ : Reads p₁ ts p₂)
    (h₂ : Reads p₂ us p₃) : Reads p₁ (ts ++ us) p₃ := by
  induction h₁ with
  | refl => exact h₂
  | step ha ht _ ih => exact .step ha ht (ih h₂)

theorem Reads.tokens_eq {p p' : Parser} {ts : List Token} (h : Reads p ts p') :
    p.tokens = p'.tokens.map (ts ++ ·) := by
  induction h with
  | @refl p => cases hp : p.tokens <;> simp [Except.map]
  | @step p p₁ p' t ts ha ht _ ih =>
    obtain rfl := advance_lookahead ha
    rw [tokens_of_ne ht]
    rcases p.advance_cases with ⟨q, hq, -, htok⟩ | ⟨e, q, hq, -⟩
    · rw [ha] at hq
      cases hq
      rw [htok, ih]
      cases p'.tokens <;> simp [Except.map]
    · rw [ha] at hq; cases hq

theorem exists_reads {p : Parser} {ts us : List Token} (hs : p.Settled)
    (h : p.tokens = .ok (ts ++ us)) (hus : us ≠ []) :
    ∃ p', Reads p ts p' ∧ p'.Settled ∧ p'.tokens = .ok us := by
  induction ts generalizing p with
  | nil => exact ⟨p, .refl, hs, h⟩
  | cons t ts ih =>
    obtain ⟨_, hhead⟩ := tokens_head h
    have hlook : p.lookahead = t := (List.cons.inj hhead).1.symm
    have hne : p.lookahead.kind ≠ .endOfInput := by
      intro hend
      rw [tokens, if_pos hend] at h
      simp [hus] at h
    obtain ⟨p₁, ha, hs₁, hnext⟩ := advance_of_tokens hs h
    obtain ⟨vs, hvs, htok⟩ := hnext hne
    simp only [List.cons_append, List.cons.injEq] at hvs
    rw [← hvs.2] at htok
    obtain ⟨p', hr, hs', htok'⟩ := ih hs₁ htok
    rw [hlook] at ha hne
    exact ⟨p', .step ha hne hr, hs', htok'⟩

end Parser
end Condition
