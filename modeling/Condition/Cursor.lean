/-
Reading tokens off a text that is kept whole.

A `Cursor` goes through a text by byte offset, one character at a time, and remembers how wide the
last character was, so that it can step back over it: that one step is all the lookahead that the
longest runs and the operators of two characters need.

It could fail where a `Scanner` cannot: a read, where the offset is beyond the text or within a
character; a step back, where it is longer than the way from the start; a slice, where its ends are
no places in the text. Then there is no answer at all, neither a token nor an error.
-/
import Condition.Lexer

namespace Condition

/-- A text, the byte offset in it up to which it has been read, and the length of a step back. -/
structure Cursor where
  text : List Char
  pos : Nat
  width : Nat

namespace Cursor

def ofString (input : String) : Cursor := ⟨input.toList, 0, 0⟩

/-- Reads a character. At the end of the text there is none, and nothing to step back over. -/
def read (u : Cursor) : Option (Option Char × Cursor) :=
  (Text.partsAt? u.pos u.text).map fun parts =>
    match parts.2 with
    | [] => (none, ⟨u.text, u.pos, 0⟩)
    | c :: _ => (some c, ⟨u.text, u.pos + c.utf8Size, c.utf8Size⟩)

/-- Steps back over the character read last. A second step back goes nowhere. -/
def back (u : Cursor) : Option Cursor :=
  if u.width ≤ u.pos then some ⟨u.text, u.pos - u.width, 0⟩ else none

theorem read_some {u v : Cursor} {c : Char} (h : u.read = some (some c, v)) :
    v.text = u.text ∧ v.pos = u.pos + c.utf8Size ∧ v.pos ≤ Text.byteLength u.text := by
  obtain ⟨⟨before, after⟩, hparts, hread⟩ := Option.map_eq_some_iff.1 h
  obtain ⟨htext, hpos⟩ := Text.eq_append_of_partsAt? hparts
  cases after with
  | nil => cases hread
  | cons d after =>
    cases hread
    refine ⟨rfl, rfl, ?_⟩
    show u.pos + c.utf8Size ≤ _
    rw [htext, hpos, Text.byteLength_append, Text.byteLength_cons]
    omega

/-- Reads on for as long as characters satisfy `p`, and steps back over the one that does not. -/
def skipWhile (p : Char → Bool) (u : Cursor) : Option Cursor :=
  match _h : u.read with
  | none => none
  | some (none, v) => some v
  | some (some c, v) => if p c then v.skipWhile p else v.back
termination_by Text.byteLength u.text - u.pos
decreasing_by
  have hpos := c.utf8Size_pos
  obtain ⟨htext, hv, hle⟩ := read_some _h
  rw [htext]
  omega

/-- Whether the next character is this one. If it is another, the cursor steps back over it. -/
def nextIs (expected : Char) (u : Cursor) : Option (Bool × Cursor) :=
  u.read.bind fun
    | (none, v) => some (false, v)
    | (some c, v) => if c = expected then some (true, v) else v.back.map (false, ·)

/-- Reads on for as long as characters satisfy `p`, and takes the text from `start` to there. -/
def run (p : Char → Bool) (start : Nat) (u : Cursor) : Option (String × Cursor) :=
  (u.skipWhile p).bind fun v => (Text.slice? start v.pos v.text).map (String.ofList ·, v)

/-- The characters that an equals sign behind them may go with. -/
def goesWithEquals (c : Char) : Bool := c ∈ ['>', '<', '=', '!']

/-- The token, or the error, that begins with a character that has been read at `start`. -/
def lexeme (start : Nat) (c : Char) (u : Cursor) : Option (Except LexError Token × Cursor) :=
  (if goesWithEquals c then u.nextIs '=' else some (false, u)).bind fun (equals, v) =>
    match Scanner.symbol? c equals with
    | some (kind, _) => some (.ok ⟨kind, "", start⟩, v)
    | none =>
      if c.isDigit then
        (v.run Char.isDigit start).map fun (text, w) => (.ok ⟨.number, text, start⟩, w)
      else if isWordChar c then
        (v.run isWordChar start).map fun (text, w) => (.ok (Scanner.wordToken text start), w)
      else some (.error (.unexpectedCharacter c start), v)

/-- The next token, or the error at the next character that is no space, and the cursor then. -/
def next (u : Cursor) : Option (Except LexError Token × Cursor) :=
  (u.skipWhile isSpace).bind fun v => v.read.bind fun
    | (none, w) => some (.ok ⟨.endOfInput, "", v.pos⟩, w)
    | (some c, w) => w.lexeme v.pos c

/-- The answers of so many calls, each with the byte offset reached. -/
def answers (u : Cursor) : Nat → Option (List (Except LexError Token × Nat))
  | 0 => some []
  | n + 1 => u.next.bind fun (answer, v) => (v.answers n).map ((answer, v.pos) :: ·)

/-- The cursor after so many calls, whatever they have answered. -/
def after (u : Cursor) : Nat → Option Cursor
  | 0 => some u
  | n + 1 => u.next.bind fun (_, v) => v.after n

end Cursor
end Condition
