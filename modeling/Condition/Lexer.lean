/-
Reading tokens off text, one at a time and as a whole.

A `Scanner` is the text not yet read and the byte offset where it starts, so what
the next token is depends on that text alone. Every call that returns neither the
end nor an error takes at least one character (`next_length_lt`), and an error
leaves the scanner just behind the character it names, so that scanning can go on
after it.
-/
import Condition.Text
import Condition.Token
import Condition.Unicode.Alphanumeric

namespace Condition

/-- A character that starts no token. -/
inductive LexError
  | unexpectedCharacter (ch : Char) (pos : Nat)
deriving DecidableEq, Repr

def LexError.message : LexError → String
  | .unexpectedCharacter ch pos => "invalid character '" ++ ch.toString ++ "' at " ++ toString pos

/-- The four characters that separate tokens. -/
def isSpace (c : Char) : Bool := c = ' ' || c = '\t' || c = '\r' || c = '\n'

/-- The characters of names and reserved words, ASCII digits among them. -/
def isWordChar (c : Char) : Bool := c = '_' || Unicode.isAlphanumeric c

/-- The text not yet read, and the byte offset at which it starts. -/
structure Scanner where
  rest : List Char
  pos : Nat
deriving DecidableEq, Repr

namespace Scanner

def ofString (input : String) : Scanner := ⟨input.toList, 0⟩

/-- The scanner behind the first characters that satisfy `p`. -/
def skipWhile (p : Char → Bool) (s : Scanner) : Scanner :=
  ⟨s.rest.dropWhile p, s.pos + Text.byteLength (s.rest.takeWhile p)⟩

/-- The kind that a character without letters or digits starts, and its width. Of
two operators that fit, the longer one is taken. -/
def symbol? (c : Char) (equalsFollows : Bool) : Option (TokenKind × Nat) :=
  match c, equalsFollows with
  | '(', _ => some (.leftParen, 1)
  | ')', _ => some (.rightParen, 1)
  | '+', _ => some (.operator (.arithmetic .plus), 1)
  | '-', _ => some (.operator (.arithmetic .minus), 1)
  | '*', _ => some (.operator (.arithmetic .times), 1)
  | '>', true => some (.operator (.comparison .greaterEqual), 2)
  | '>', false => some (.operator (.comparison .greater), 1)
  | '<', true => some (.operator (.comparison .lesserEqual), 2)
  | '<', false => some (.operator (.comparison .lesser), 1)
  | '=', true => some (.operator (.comparison .equal), 2)
  | '!', true => some (.operator (.comparison .notEqual), 2)
  | _, _ => none

/-- A word is its reserved kind, or an identifier that keeps the text. -/
def wordToken (text : String) (pos : Nat) : Token :=
  match TokenKind.keyword? text with
  | some kind => ⟨kind, "", pos⟩
  | none => ⟨.identifier, text, pos⟩

/-- The token at the very start of the text, which has no space in front. Numbers and
words are the longest runs of their characters. -/
def read (s : Scanner) : Except LexError Token × Scanner :=
  match s.rest with
  | [] => (.ok ⟨.endOfInput, "", s.pos⟩, s)
  | c :: cs =>
    match symbol? c (cs.head? == some '=') with
    | some (kind, width) => (.ok ⟨kind, "", s.pos⟩, ⟨s.rest.drop width, s.pos + width⟩)
    | none =>
      if c.isDigit then
        (.ok ⟨.number, String.ofList (s.rest.takeWhile Char.isDigit), s.pos⟩,
          s.skipWhile Char.isDigit)
      else if isWordChar c then
        (.ok (wordToken (String.ofList (s.rest.takeWhile isWordChar)) s.pos),
          s.skipWhile isWordChar)
      else (.error (.unexpectedCharacter c s.pos), ⟨cs, s.pos + c.utf8Size⟩)

/-- The next token, or the error at the next character that is no space, and the
scanner behind it. At the end of the text every call gives the end again. -/
def next (s : Scanner) : Except LexError Token × Scanner := (s.skipWhile isSpace).read

/-! ## Progress -/

theorem skipWhile_length_le (p : Char → Bool) (s : Scanner) :
    (s.skipWhile p).rest.length ≤ s.rest.length :=
  (List.dropWhile_sublist p).length_le

theorem skipWhile_length_lt {p : Char → Bool} {s : Scanner} {c : Char} {cs : List Char}
    (hs : s.rest = c :: cs) (hc : p c = true) : (s.skipWhile p).rest.length < s.rest.length := by
  have h := (List.dropWhile_sublist (l := cs) p).length_le
  simp only [skipWhile, hs, List.dropWhile_cons, hc, if_true, List.length_cons]
  omega

theorem symbol?_width_pos {c : Char} {e : Bool} {kind : TokenKind} {width : Nat}
    (h : symbol? c e = some (kind, width)) : 0 < width ∧ kind ≠ .endOfInput := by
  unfold symbol? at h
  split at h <;> simp_all <;> (obtain ⟨rfl, rfl⟩ := h; simp)

theorem read_length_lt {s : Scanner} (h : s.rest ≠ []) :
    s.read.2.rest.length < s.rest.length := by
  unfold read
  split
  · contradiction
  · next c cs hs =>
    split
    · next kind width hw =>
      have := (symbol?_width_pos hw).1
      simp [hs]; omega
    · split
      · next hd => simpa [hs] using skipWhile_length_lt hs hd
      · split
        · next hd => simpa [hs] using skipWhile_length_lt hs hd
        · simp [hs]

theorem read_of_rest_nil {s : Scanner} (h : s.rest = []) :
    s.read = (.ok ⟨.endOfInput, "", s.pos⟩, s) := by
  simp [read, h]

theorem read_length_le (s : Scanner) : s.read.2.rest.length ≤ s.rest.length := by
  by_cases h : s.rest = []
  · simp [read_of_rest_nil h]
  · exact Nat.le_of_lt (read_length_lt h)

/-- Every call that returns neither the end nor an error takes at least one character,
and so does every call that returns an error. -/
theorem next_length_lt {s : Scanner} (h : ∀ t, s.next.1 = .ok t → t.kind ≠ .endOfInput) :
    s.next.2.rest.length < s.rest.length := by
  refine Nat.lt_of_lt_of_le (read_length_lt fun he => ?_) (s.skipWhile_length_le isSpace)
  exact h _ (by rw [next, read_of_rest_nil he]) rfl

theorem next_length_le (s : Scanner) : s.next.2.rest.length ≤ s.rest.length :=
  Nat.le_trans (read_length_le _) (s.skipWhile_length_le isSpace)

/-! ## All tokens -/

/-- The tokens up to and including the end, or the first error. -/
def tokens (s : Scanner) : Except LexError (List Token) :=
  match _h : s.next with
  | (.error e, _) => .error e
  | (.ok t, s') =>
    if _ht : t.kind = .endOfInput then .ok [t]
    else (tokens s').map (t :: ·)
termination_by s.rest.length
decreasing_by
  have hl := next_length_lt (s := s) (by simp [_h, _ht])
  rwa [_h] at hl

theorem tokens_eq (s : Scanner) :
    s.tokens =
      match s.next with
      | (.error e, _) => .error e
      | (.ok t, s') => if t.kind = .endOfInput then .ok [t] else s'.tokens.map (t :: ·) := by
  rw [tokens]
  split
  · next h => rw [h]
  · next h =>
    rw [h]
    split <;> simp [*]

/-- The answers of so many calls, each with the byte offset reached. Calls go on after
errors and after the end. -/
def answers (s : Scanner) : Nat → List (Except LexError Token × Nat)
  | 0 => []
  | n + 1 => (s.next.1, s.next.2.pos) :: s.next.2.answers n

end Scanner

/-- The tokens of a text, the end last, or the first error in it. -/
def tokenize (input : String) : Except LexError (List Token) := (Scanner.ofString input).tokens

end Condition
