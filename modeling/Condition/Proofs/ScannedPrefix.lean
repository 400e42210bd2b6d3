/-
How much of a text the scanner has to see.

From a scanner on, tokens are read one after another until something else is met: the end,
an error, or a token that is of interest (`Scans`). The text behind that place has had no
say in what was read, but for its first character: with any other text there that begins
alike, or with none, the same tokens are read (`Scans.graft`).
-/
import Condition.Proofs.Spelling

namespace Condition

/-- A lexeme that text does not go on with is not gone on with by less of it. -/
theorem TokenKind.Stops.graft {k : TokenKind} {before body body' : List Char}
    (h : k.Stops (before ++ body)) (hbody : ∀ c ∈ body'.head?, c ∈ body.head?) :
    k.Stops (before ++ body') := by
  intro c hc
  cases before with
  | nil => exact h c (hbody c hc)
  | cons d before => exact h c hc

namespace Scanner

/-- Calls from `s` on answer with these tokens, none of them the end, and the scanner is at
`s'` then. -/
inductive Scans : Scanner → List Token → Scanner → Prop
  | nil {s} : Scans s [] s
  | cons {s s₁ s' t ts} : s.next = (.ok t, s₁) → t.kind ≠ .endOfInput → Scans s₁ ts s' →
      Scans s (t :: ts) s'

theorem Scans.tokens_eq {s s' : Scanner} {ts : List Token} (h : Scans s ts s') :
    s.tokens = s'.tokens.map (ts ++ ·) := by
  induction h with
  | @nil s => cases s.tokens <;> simp [Except.map]
  | @cons s s₁ s' t ts hs ht _ ih =>
    rw [Scanner.tokens_eq, hs]
    simp only [ht, if_false, ih]
    cases s'.tokens <;> simp [Except.map]

theorem Scans.tokens_of_end {s s' u : Scanner} {ts : List Token} {t : Token} (h : Scans s ts s')
    (hs' : s'.next = (.ok t, u)) (ht : t.kind = .endOfInput) : s.tokens = .ok (ts ++ [t]) := by
  rw [h.tokens_eq, Scanner.tokens_eq, hs']
  simp [ht, Except.map]

/-- The first error of a text is met behind tokens. -/
theorem exists_scans_of_error {s : Scanner} {e : LexError} (h : s.tokens = .error e) :
    ∃ ts s' u, Scans s ts s' ∧ s'.next = (.error e, u) := by
  induction hlen : s.rest.length using Nat.strongRecOn generalizing s with
  | _ len ih =>
  subst hlen
  rw [Scanner.tokens_eq] at h
  split at h
  · next e' u hs =>
    cases h
    exact ⟨[], s, u, .nil, hs⟩
  · next t s₁ hs =>
    by_cases ht : t.kind = .endOfInput
    · rw [if_pos ht] at h
      cases h
    rw [if_neg ht] at h
    have hrest : s₁.tokens = .error e := by
      cases htok : s₁.tokens <;> simp_all [Except.map]
    have hlt := next_length_lt (s := s) (by simp [hs, ht])
    rw [hs] at hlt
    obtain ⟨ts, s', u, hscans, hs'⟩ := ih _ hlt hrest rfl
    exact ⟨t :: ts, s', u, .cons hs ht hscans, hs'⟩

/-- What is read before a place is read before it with any text there that begins alike. -/
theorem Scans.graft {s s' : Scanner} {ts : List Token} (h : Scans s ts s') (gap : List Char)
    {body : List Char} (hs' : s'.rest = gap ++ body) :
    ∃ before, s.rest = before ++ body ∧
      s.pos + Text.byteLength before = s'.pos + Text.byteLength gap ∧
      ∀ body' : List Char, (∀ c ∈ body'.head?, c ∈ body.head?) →
        Scans ⟨before ++ body', s.pos⟩ ts ⟨gap ++ body', s'.pos⟩ := by
  induction h with
  | nil => exact ⟨gap, hs', rfl, fun body' _ => .nil⟩
  | @cons s s₁ s' t ts hs ht _ ih =>
    obtain ⟨before, hrest, hpos, hscans⟩ := ih hs'
    have hr := s.nextR
    rw [hs] at hr
    cases hr with
    | finish => exact absurd rfl ht
    | @lexeme space _ rest pos hspace hwf hstop htpos =>
      simp only at hrest hpos
      subst hrest
      refine ⟨space ++ (t.lexeme ++ before), by simp, ?_, fun body' hbody => ?_⟩
      · show pos + _ = _
        rw [← hpos, htpos, Text.byteLength_append, Text.byteLength_append]
        omega
      · have hnext := next_lexeme hspace hwf htpos (hstop.graft hbody)
        simp only [List.append_assoc]
        exact .cons hnext ht (hscans body' hbody)

/-! ## Cutting a text -/

/-- The text up to a place has the tokens before it and then its end. They are also the first
tokens of that text with more behind it, if this begins like what was there. -/
theorem Scans.cut {input : String} {ts : List Token} {gap body : List Char} {pos : Nat}
    (h : Scans (.ofString input) ts ⟨gap ++ body, pos⟩) (hgap : ∀ c ∈ gap, isSpace c = true) :
    ∃ before, input.toList = before ++ body ∧
      Text.byteLength before = pos + Text.byteLength gap ∧
      (∃ s u, Scans (.ofString (String.ofList before)) ts s ∧
        s.next = (.ok (endAt (pos + Text.byteLength gap)), u)) ∧
      ∀ body' : List Char, (∀ c ∈ body'.head?, c ∈ body.head?) →
        Scans (.ofString (String.ofList (before ++ body'))) ts ⟨gap ++ body', pos⟩ := by
  obtain ⟨before, hrest, hpos, hscans⟩ := h.graft gap rfl
  have hgraft : ∀ body' : List Char, (∀ c ∈ body'.head?, c ∈ body.head?) →
      Scans (.ofString (String.ofList (before ++ body'))) ts ⟨gap ++ body', pos⟩ := by
    intro body' hbody
    rw [ofString, String.toList_ofList]
    exact hscans body' hbody
  have hnone := hgraft [] (by simp)
  rw [List.append_nil, List.append_nil] at hnone
  exact ⟨before, hrest, by simpa [ofString] using hpos, ⟨_, _, hnone, next_gap hgap pos⟩, hgraft⟩

/-- At a token: with any text behind it that does not go on with it the token is read again. -/
theorem Scans.around {input : String} {ts : List Token} {s u : Scanner} {t : Token}
    (h : Scans (.ofString input) ts s) (hs : s.next = (.ok t, u)) (ht : t.kind ≠ .endOfInput) :
    ∃ before after, input.toList = before ++ (t.lexeme ++ after) ∧
      t.pos = Text.byteLength before ∧
      (∃ s' u', Scans (.ofString (String.ofList before)) ts s' ∧
        s'.next = (.ok (endAt t.pos), u')) ∧
      ∀ after', t.kind.Stops after' → ∃ s' u',
        Scans (.ofString (String.ofList (before ++ (t.lexeme ++ after')))) ts s' ∧
          s'.next = (.ok t, u') := by
  have hr := s.nextR
  rw [hs] at hr
  cases hr with
  | finish => exact absurd rfl ht
  | @lexeme gap _ after pos hgap hwf _ htpos =>
    obtain ⟨before, htext, hpos, hend, hscans⟩ := h.cut hgap
    obtain ⟨c, cs, hlexeme, -⟩ := hwf.begins
    rw [← htpos] at hpos hend
    refine ⟨before, after, htext, hpos.symm, hend, fun after' hafter => ?_⟩
    exact ⟨_, _, hscans (t.lexeme ++ after') (by simp [hlexeme]), next_lexeme hgap hwf htpos hafter⟩

theorem Scans.around_error {input : String} {ts : List Token} {s u : Scanner} {c : Char} {pos : Nat}
    (h : Scans (.ofString input) ts s) (hs : s.next = (.error (.unexpectedCharacter c pos), u)) :
    ∃ before after, input.toList = before ++ c :: after ∧ pos = Text.byteLength before ∧
      ∃ s' u', Scans (.ofString (String.ofList before)) ts s' ∧
        s'.next = (.ok (endAt pos), u') := by
  have hr := s.nextR
  rw [hs] at hr
  cases hr with
  | @invalid gap _ after _ hgap =>
    obtain ⟨before, htext, hpos, hend, -⟩ := h.cut hgap
    exact ⟨before, after, htext, hpos.symm, hend⟩

theorem Scans.pos_of_end {input : String} {ts : List Token} {s u : Scanner} {t : Token}
    (h : Scans (.ofString input) ts s) (hs : s.next = (.ok t, u)) (ht : t.kind = .endOfInput) :
    t.pos = input.utf8ByteSize := by
  have hr := s.nextR
  rw [hs] at hr
  cases hr with
  | @finish gap pos hgap =>
    rw [← List.append_nil gap] at h
    obtain ⟨before, htext, hpos, -⟩ := h.cut hgap
    rw [← Text.byteLength_toList, htext, List.append_nil, hpos]
    rfl
  | lexeme _ hwf => exact absurd ht hwf.kind_ne

end Scanner
end Condition
