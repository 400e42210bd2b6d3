/-
The calls of a scanner, one after another.

Every call finds, behind a gap of space, the end of the text, a lexeme, or a character that
begins none, and leaves the scanner right behind it (`nextR`). So a scanner never leaves its
text (`Within`).

Calls go on after errors and after the end. The tokens among all their answers are the
scanner's stream (`stream`); it is told by the scanner's place alone, so a call that
answers with a token takes the head off it, and one that answers with an error leaves it
as it was.
-/
import Condition.Proofs.Spelling

namespace Condition

namespace Scanner

/-! ## A call that fails -/

/-- From `s` to `s'` the scanner has passed a gap and the character of the error. -/
def Passes (s : Scanner) (e : LexError) (s' : Scanner) : Prop :=
  ∃ c gap, s.rest = gap ++ c :: s'.rest ∧ (∀ d ∈ gap, isSpace d = true) ∧
    e = .unexpectedCharacter c (s.pos + Text.byteLength gap) ∧
    s'.pos = s.pos + Text.byteLength gap + c.utf8Size

theorem passes_of_next {s s' : Scanner} {e : LexError} (h : s.next = (.error e, s')) :
    s.Passes e s' := by
  have hr := s.nextR
  rw [h] at hr
  cases hr with
  | invalid hgap => exact ⟨_, _, rfl, hgap, rfl, rfl⟩

/-! ## Places in the text -/

/-- The scanner stands in the text, where what it has not read begins. -/
def Within (text : List Char) (s : Scanner) : Prop :=
  ∃ before, text = before ++ s.rest ∧ s.pos = Text.byteLength before

theorem within_ofString (input : String) : (ofString input).Within input.toList :=
  ⟨[], rfl, rfl⟩

end Scanner

/-- The lexeme of the token stands in the text at the token's place. -/
def Token.Within (text : List Char) (t : Token) : Prop :=
  ∃ before after, text = before ++ (t.lexeme ++ after) ∧ t.pos = Text.byteLength before

namespace Scanner

theorem Within.next {text : List Char} {s : Scanner} (h : s.Within text) :
    s.next.2.Within text ∧ ∀ t, s.next.1 = .ok t → t.Within text := by
  obtain ⟨before, htext, hpos⟩ := h
  have hr := s.nextR
  generalize s.next = r at hr
  cases hr with
  | @finish gap pos =>
    refine ⟨⟨before ++ gap, by simpa using htext, by simp [← hpos]⟩, fun t ht => ?_⟩
    cases ht
    exact ⟨before ++ gap, [], by simpa [endAt, Token.lexeme, Token.label, TokenKind.symbol?] using
      htext, by simp [endAt, ← hpos]⟩
  | @lexeme gap t rest pos _ _ _ htpos =>
    have hplace : t.pos = Text.byteLength (before ++ gap) := by
      rw [Text.byteLength_append, ← hpos]
      exact htpos
    refine ⟨⟨before ++ gap ++ t.lexeme, by simpa using htext, ?_⟩, fun u hu => ?_⟩
    · rw [Text.byteLength_append, ← hplace]
    · cases hu
      exact ⟨before ++ gap, rest, by simpa using htext, hplace⟩
  | @invalid gap c rest pos =>
    refine ⟨⟨before ++ gap ++ [c], by simpa using htext, ?_⟩, fun u hu => by cases hu⟩
    simp [← hpos, Nat.add_assoc]

/-! ## The stream of tokens -/

/-- The first token that calls answer with, errors passed over, and the scanner then. -/
def nextToken (s : Scanner) : Token × Scanner :=
  match _h : s.next with
  | (.ok t, s') => (t, s')
  | (.error _, s') => s'.nextToken
termination_by s.rest.length
decreasing_by
  have hl := next_length_lt (s := s) (by simp [_h])
  rwa [_h] at hl

/-- The tokens among the answers to calls without end. -/
def stream (s : Scanner) : Nat → Token
  | 0 => s.nextToken.1
  | i + 1 => s.nextToken.2.stream i

theorem nextToken_of_ok {s s' : Scanner} {t : Token} (h : s.next = (.ok t, s')) :
    s.nextToken = (t, s') := by
  rw [nextToken]
  split <;> simp_all

theorem nextToken_of_error {s s' : Scanner} {e : LexError} (h : s.next = (.error e, s')) :
    s.nextToken = s'.nextToken := by
  rw [nextToken]
  split <;> simp_all

theorem Within.nextToken {text : List Char} {s : Scanner} (h : s.Within text) :
    s.nextToken.1.Within text ∧ s.nextToken.2.Within text := by
  fun_induction Scanner.nextToken s with
  | case1 s t s' hs =>
    obtain ⟨hplace, htoken⟩ := h.next
    rw [hs] at hplace htoken
    exact ⟨htoken t rfl, hplace⟩
  | case2 s e s' hs ih =>
    have hplace := h.next.1
    rw [hs] at hplace
    exact ih hplace

theorem Within.stream {text : List Char} {s : Scanner} (h : s.Within text) (i : Nat) :
    (s.stream i).Within text := by
  induction i generalizing s with
  | zero => exact h.nextToken.1
  | succ i ih => exact ih h.nextToken.2

theorem stream_of_ok {s s' : Scanner} {t : Token} (h : s.next = (.ok t, s')) :
    s.stream 0 = t ∧ ∀ i, s.stream (i + 1) = s'.stream i := by
  simp only [stream, nextToken_of_ok h, implies_true, and_self]

/-- An error takes nothing off the stream. -/
theorem stream_of_error {s s' : Scanner} {e : LexError} (h : s.next = (.error e, s')) (i : Nat) :
    s.stream i = s'.stream i := by
  cases i <;> simp only [stream, nextToken_of_error h]

theorem exists_next_nextToken (s : Scanner) :
    ∃ u : Scanner, u.next = (.ok s.nextToken.1, s.nextToken.2) := by
  fun_induction nextToken s with
  | case1 s t s' h => exact ⟨s, h⟩
  | case2 s e s' h ih => exact ih

theorem stream_of_end {s : Scanner} {i : Nat} (h : (s.stream i).kind = .endOfInput) :
    s.stream (i + 1) = s.stream i := by
  induction i generalizing s with
  | zero =>
    obtain ⟨u, hu⟩ := s.exists_next_nextToken
    exact (stream_of_ok (next_end hu h)).1
  | succ i ih => exact ih h

/-- The tokens that the first `n` calls answer with. -/
def tokensOf (s : Scanner) (n : Nat) : List Token :=
  (s.answers n).filterMap fun a => a.1.toOption

theorem tokensOf_of_ok {s s' : Scanner} {t : Token} (h : s.next = (.ok t, s')) (n : Nat) :
    s.tokensOf (n + 1) = t :: s'.tokensOf n := by
  simp [tokensOf, answers, h, Except.toOption]

theorem tokensOf_of_error {s s' : Scanner} {e : LexError} (h : s.next = (.error e, s'))
    (n : Nat) : s.tokensOf (n + 1) = s'.tokensOf n := by
  simp [tokensOf, answers, h, Except.toOption]

/-- What calls answer with is the start of the stream. -/
theorem tokensOf_eq_stream (s : Scanner) (n : Nat) :
    s.tokensOf n = (List.range (s.tokensOf n).length).map s.stream := by
  induction n generalizing s with
  | zero => rfl
  | succ n ih =>
    rcases h : s.next with ⟨e | t, s'⟩
    · rw [tokensOf_of_error h, funext (stream_of_error h)]
      exact ih s'
    · obtain ⟨hhead, htail⟩ := stream_of_ok h
      rw [tokensOf_of_ok h, List.length_cons, List.range_succ_eq_map, List.map_cons, List.map_map,
        hhead]
      refine congrArg (t :: ·) ((ih s').trans (List.map_congr_left fun i _ => ?_))
      exact (htail i).symm

/-- Some number of calls gives the first token, and calls from then on the tokens behind it. -/
theorem exists_tokensOf_nextToken (s : Scanner) :
    ∃ n, ∀ k, s.tokensOf (n + k) = s.nextToken.1 :: s.nextToken.2.tokensOf k := by
  fun_induction nextToken s with
  | case1 s t s' h => exact ⟨1, fun k => by rw [Nat.add_comm, tokensOf_of_ok h]⟩
  | case2 s e s' h ih =>
    obtain ⟨n, hn⟩ := ih
    refine ⟨n + 1, fun k => ?_⟩
    rw [Nat.add_right_comm, tokensOf_of_error h, hn]

theorem exists_lt_length_tokensOf (s : Scanner) (i : Nat) : ∃ n, i < (s.tokensOf n).length := by
  induction i generalizing s with
  | zero =>
    obtain ⟨n, hn⟩ := s.exists_tokensOf_nextToken
    exact ⟨n + 0, by rw [hn, List.length_cons]; omega⟩
  | succ i ih =>
    obtain ⟨n, hn⟩ := s.exists_tokensOf_nextToken
    obtain ⟨k, hk⟩ := ih s.nextToken.2
    exact ⟨n + k, by rw [hn, List.length_cons]; omega⟩

/-- The tokens among the answers to calls, however many, are those of the sequence in order,
and none of them is left out. -/
def Delivers (s : Scanner) (stream : Nat → Token) : Prop :=
  (∀ n, s.tokensOf n = (List.range (s.tokensOf n).length).map stream) ∧
    ∀ i, ∃ n, i < (s.tokensOf n).length

theorem delivers_stream (s : Scanner) : s.Delivers s.stream :=
  ⟨s.tokensOf_eq_stream, s.exists_lt_length_tokensOf⟩

end Scanner
end Condition
