/-
What a call of the scanner depends on.

It depends on the text ahead alone. The same text further on gives the same answers with their
places moved (`next_shift`), and so do cursors, whatever they have behind them and whatever width
they remember (`next_of_ofString`). So two texts with space between them are scanned one after the
other: the last lexeme of the first cannot go on beyond the space (`tokens_append`). Main statement:
`scanning_local`.
-/
import Condition.Proofs.CursorCalls
import Mathlib.Data.List.Basic

namespace Condition

/-! ## Places moved -/

def LexError.shift (n : Nat) : LexError → LexError
  | .unexpectedCharacter c pos => .unexpectedCharacter c (n + pos)

def Token.shift (n : Nat) (t : Token) : Token := ⟨t.kind, t.text, n + t.pos⟩

namespace Scanner

/-- The answer with the token or the error so many bytes further on. -/
def shiftAnswer (n : Nat) (r : Except LexError Token) : Except LexError Token :=
  (r.mapError (LexError.shift n)).map (Token.shift n)

/-- The tokens, or the error, so many bytes further on. -/
def shiftTokens (n : Nat) (r : Except LexError (List Token)) :
    Except LexError (List Token) :=
  (r.mapError (LexError.shift n)).map (List.map (Token.shift n))

end Scanner

open Scanner (shiftAnswer shiftTokens)

@[simp] theorem Token.shift_kind (n : Nat) (t : Token) : (t.shift n).kind = t.kind := rfl

theorem Token.lexeme_shift (n : Nat) (t : Token) : (t.shift n).lexeme = t.lexeme := rfl

theorem Token.WellFormed.shift {t : Token} (h : t.WellFormed) (n : Nat) :
    (t.shift n).WellFormed := h

namespace Scanner

/-- The scanner with the same text ahead, so many bytes further on. -/
def shift (n : Nat) (s : Scanner) : Scanner := ⟨s.rest, n + s.pos⟩

/-- A call depends on the place in the text only for the places it answers with. -/
theorem next_shift (n : Nat) (s : Scanner) :
    (s.shift n).next = (shiftAnswer n s.next.1, s.next.2.shift n) := by
  have hr := s.nextR
  generalize s.next = r at hr
  cases hr with
  | @finish gap pos hgap =>
    rw [shift, next_gap hgap, Nat.add_assoc]
    rfl
  | @lexeme gap t rest pos hgap hwf hstop hpos =>
    have hmoved : (t.shift n).pos = n + pos + Text.byteLength gap := by
      rw [Nat.add_assoc, ← hpos]
      rfl
    rw [shift, ← t.lexeme_shift n, next_lexeme hgap (hwf.shift n) hmoved hstop]
    simp only [shift, Token.shift, Nat.add_assoc]
    rfl
  | @invalid gap c rest pos hgap hc hinv =>
    rw [shift, next_invalid hgap hc hinv]
    simp only [shift, Nat.add_assoc]
    rfl

theorem tokens_shift (n : Nat) (s : Scanner) : (s.shift n).tokens = shiftTokens n s.tokens := by
  induction hlen : s.rest.length using Nat.strongRecOn generalizing s with
  | _ len ih =>
  subst hlen
  rw [tokens_eq, next_shift, tokens_eq s]
  rcases hnext : s.next with ⟨e | t, u⟩
  · rfl
  · by_cases hend : t.kind = .endOfInput
    · simp [shiftAnswer, shiftTokens, Except.map, Except.mapError, hend]
    · have hlt := next_length_lt (s := s) (by simp [hnext, hend])
      rw [hnext] at hlt
      simp only [shiftAnswer, Except.map, Except.mapError, Token.shift_kind, hend, if_false,
        ih _ hlt u rfl]
      cases u.tokens <;> rfl

/-! ## Space between texts -/

theorem tokens_space {gap : List Char} (hgap : ∀ c ∈ gap, isSpace c = true) (cs : List Char)
    (pos : Nat) : tokens ⟨gap ++ cs, pos⟩ = tokens ⟨cs, pos + Text.byteLength gap⟩ := by
  have hskip : skipWhile isSpace ⟨gap ++ cs, pos⟩ =
      skipWhile isSpace ⟨cs, pos + Text.byteLength gap⟩ := by
    simp only [skipWhile, List.dropWhile_append_of_pos hgap, List.takeWhile_append_of_pos hgap,
      Text.byteLength_append, Nat.add_assoc]
  rw [tokens_eq, tokens_eq ⟨cs, _⟩, next, next, hskip]

end Scanner

theorem TokenKind.Stops.append_space {k : TokenKind} {cs tail : List Char} (h : k.Stops cs)
    (htail : ∀ c ∈ tail.head?, isSpace c = true) : k.Stops (cs ++ tail) := by
  cases cs with
  | nil => exact fun c hc => absorbs_of_isSpace (htail c hc)
  | cons d cs => exact h

theorem Invalid.append_space {c : Char} {cs tail : List Char} (h : Invalid c cs)
    (htail : ∀ c ∈ tail.head?, isSpace c = true) : Invalid c (cs ++ tail) := by
  refine h.imp (And.imp_right fun hne => ?_) id
  cases cs with
  | nil =>
    -- A character that is refused alone may begin an operator, but not before a space.
    intro he
    have := htail '=' he
    revert this
    decide
  | cons d cs => exact hne

namespace Scanner

/-- A text with space behind it, or nothing, is scanned as it is alone; what stands behind it is
scanned then, if there was no error. -/
theorem tokens_append {tail : List Char} (htail : ∀ c ∈ tail.head?, isSpace c = true)
    (cs : List Char) (pos : Nat) :
    (∃ e, tokens ⟨cs, pos⟩ = .error e ∧ tokens ⟨cs ++ tail, pos⟩ = .error e) ∨
      ∃ ts t, tokens ⟨cs, pos⟩ = .ok (ts ++ [t]) ∧
        tokens ⟨cs ++ tail, pos⟩ =
          (tokens ⟨tail, pos + Text.byteLength cs⟩).map (ts ++ ·) := by
  induction hlen : cs.length using Nat.strongRecOn generalizing cs pos with
  | _ len ih =>
  subst hlen
  have hr := nextR ⟨cs, pos⟩
  generalize hs : (⟨cs, pos⟩ : Scanner) = s at hr
  generalize hnext : s.next = r at hr
  cases hr with
  | @finish gap pos hgap =>
    cases hs
    refine .inr ⟨[], endAt (pos + Text.byteLength cs), ?_, ?_⟩
    · rw [tokens_eq, hnext]
      rfl
    · rw [tokens_space hgap]
      cases tokens ⟨tail, pos + Text.byteLength cs⟩ <;> rfl
  | @lexeme gap t rest pos hgap hwf hstop hpos =>
    cases hs
    have hlt := next_length_lt (s := ⟨gap ++ (t.lexeme ++ rest), pos⟩) (by
      simpa [hnext] using hwf.kind_ne)
    rw [hnext] at hlt
    -- The longest match ends where it did: the lexeme does not go on with a space.
    have hjoined := next_lexeme hgap hwf hpos (hstop.append_space htail)
    rw [tokens_eq, hnext, tokens_eq ⟨_ ++ tail, pos⟩]
    simp only [List.append_assoc, hjoined, hwf.kind_ne, if_false]
    rcases ih rest.length hlt rest (t.pos + Text.byteLength t.lexeme) rfl with
      ⟨e, he, he'⟩ | ⟨ts, u, hts, hts'⟩
    · exact .inl ⟨e, by rw [he]; rfl, by rw [he']; rfl⟩
    · refine .inr ⟨t :: ts, u, by rw [hts]; rfl, ?_⟩
      rw [hts', hpos]
      simp only [Text.byteLength_append, Nat.add_assoc]
      cases tokens ⟨tail, _⟩ <;> rfl
  | @invalid gap c rest pos hgap hc hinv =>
    cases hs
    refine .inl ⟨_, by rw [tokens_eq, hnext], ?_⟩
    rw [tokens_eq, List.append_assoc, List.cons_append,
      next_invalid hgap hc (hinv.append_space htail)]

end Scanner

/-- The tokens of two texts, one behind the other and `n` bytes behind its start; or the first
error. -/
def joinTokens (n : Nat) : Except LexError (List Token) → Except LexError (List Token) →
    Except LexError (List Token)
  | .error e, _ => .error e
  | .ok _, .error e => .error (e.shift n)
  | .ok ts, .ok us => .ok (ts.dropLast ++ us.map (Token.shift n))

/-- Texts with space between them have the tokens of the one and, moved, those of the other. -/
theorem tokenize_append_space (a b : String) {w : String} (hne : w ≠ "")
    (hw : ∀ c ∈ w.toList, isSpace c = true) :
    tokenize (a ++ w ++ b) = joinTokens (a ++ w).utf8ByteSize (tokenize a) (tokenize b) := by
  have htail : ∀ c ∈ (w.toList ++ b.toList).head?, isSpace c = true := by
    intro c hc
    cases hlist : w.toList with
    | nil => exact absurd (by simpa using hlist) hne
    | cons d ds =>
      rw [hlist] at hc
      cases hc
      exact hw c (by simp [hlist])
  have hlength : 0 + Text.byteLength a.toList + Text.byteLength w.toList =
      (a ++ w).utf8ByteSize + 0 := by
    rw [← Text.byteLength_toList, String.toList_append, Text.byteLength_append]
    omega
  have hsecond : Scanner.tokens ⟨w.toList ++ b.toList, 0 + Text.byteLength a.toList⟩ =
      shiftTokens (a ++ w).utf8ByteSize (tokenize b) := by
    rw [Scanner.tokens_space hw, hlength]
    exact Scanner.tokens_shift _ (.ofString b)
  have hjoin : tokenize (a ++ w ++ b) =
      Scanner.tokens ⟨a.toList ++ (w.toList ++ b.toList), 0⟩ := by
    rw [tokenize, Scanner.ofString, String.toList_append, String.toList_append, List.append_assoc]
  rw [hjoin, tokenize, Scanner.ofString]
  rcases Scanner.tokens_append htail a.toList 0 with ⟨e, he, he'⟩ | ⟨ts, t, hts, hts'⟩
  · rw [he, he']
    rfl
  · rw [hts, hts', hsecond]
    cases tokenize b with
    | error e => rfl
    | ok us => simp [joinTokens, shiftTokens, Except.map, Except.mapError]

namespace Cursor

/-- The cursor with this text put before its own. -/
def prepend (before : List Char) (u : Cursor) : Cursor :=
  ⟨before ++ u.text, Text.byteLength before + u.pos, u.width⟩

/-- A call on the text ahead alone, from its start, does not fail. With any text before it and any
width remembered it does the same, so much further on. -/
theorem next_of_ofString (after : List Char) :
    ∃ r v, (ofString (String.ofList after)).next = some (r, v) ∧
      ∀ before width, (between before after width).next =
        some (shiftAnswer (Text.byteLength before) r, v.prepend before) := by
  obtain ⟨width', hnext⟩ := next_between after
  have hstart : ofString (String.ofList after) = between [] after 0 := by
    rw [ofString, String.toList_ofList]
    rfl
  refine ⟨_, _, by rw [hstart]; exact hnext [] 0, fun before width => ?_⟩
  have hshift := Scanner.next_shift (Text.byteLength before) ⟨after, 0⟩
  rw [Scanner.shift, Nat.add_zero] at hshift
  rw [hnext before width, hshift]
  rfl

end Cursor

/-- **Scanning is local.** A call of the scanner answers as the first call on the text ahead
does, with the place of the answer and its own moved by the old place. So does a call of a cursor
after however many calls, and with any other text before it and any other width remembered it does
just the same. And of two texts with space between them, the first is scanned as it is alone, and
then, if there was no error, the second is, with all places moved. -/
theorem scanning_local :
    (∀ s : Scanner, s.next =
      (shiftAnswer s.pos (Scanner.ofString (String.ofList s.rest)).next.1,
        (Scanner.ofString (String.ofList s.rest)).next.2.shift s.pos)) ∧
    (∀ input n, ∃ u before after, (Cursor.ofString input).after n = some u ∧
      input.toList = before ++ after ∧ u.pos = Text.byteLength before ∧
      ∃ r v, (Cursor.ofString (String.ofList after)).next = some (r, v) ∧
        u.next = some (shiftAnswer u.pos r, v.prepend before) ∧
        ∀ before' width, Cursor.next ⟨before' ++ after, Text.byteLength before', width⟩ =
          some (shiftAnswer (Text.byteLength before') r, v.prepend before')) ∧
    ∀ a w b : String, w ≠ "" → (∀ c ∈ w.toList, isSpace c = true) →
      tokenize (a ++ w ++ b) = joinTokens (a ++ w).utf8ByteSize (tokenize a) (tokenize b) := by
  refine ⟨fun s => ?_, fun input n => ?_, fun a w b => tokenize_append_space a b⟩
  · have hshift := Scanner.next_shift s.pos ⟨s.rest, 0⟩
    rw [Scanner.ofString, String.toList_ofList, ← hshift]
    rfl
  · obtain ⟨u, s, hafter, hu, htext⟩ := Cursor.after_shows (Cursor.shows_ofString input) n
    obtain ⟨before, hu, hpos⟩ := hu.eq_between
    obtain ⟨r, v, hfirst, hnext⟩ := Cursor.next_of_ofString s.rest
    have hplace : u.pos = Text.byteLength before := congrArg Cursor.pos hu
    refine ⟨u, before, s.rest, hafter, ?_, hplace, r, v, hfirst, ?_, hnext⟩
    · exact htext.symm.trans (congrArg Cursor.text hu)
    · rw [hplace, ← hnext before u.width, ← hu]

/-- The space keeps the two characters apart that would be one operator, and the second is none
alone. -/
theorem scanning_local_cut_operator :
    "\t " ≠ "" ∧ (∀ c ∈ "\t ".toList, isSpace c = true) ∧
      (tokenize "é>").toOption.isSome ∧ tokenize "=1" = .error (.unexpectedCharacter '=' 0) ∧
      tokenize ("é>" ++ "\t " ++ "=1") = .error (.unexpectedCharacter '=' 5) := by
  have hne : "\t " ≠ "" := by decide
  have hspace : ∀ c ∈ "\t ".toList, isSpace c = true := by simp [isSpace]
  refine ⟨hne, hspace, by decide +kernel, by decide +kernel, ?_⟩
  rw [scanning_local.2.2 "é>" "\t " "=1" hne hspace]
  decide +kernel

end Condition
