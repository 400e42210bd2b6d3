/-
The characters of a YAML text with their places. Line breaks are made uniform here:
CR LF, CR, LF and NEL all become one line feed, while the line and the paragraph
separator stay what they are.
-/

namespace Condition.Yaml

/-- A character, its line, its column, and the number of characters before it. -/
structure Cell where
  char : Char
  line : Nat
  column : Nat
  index : Nat

/-- What is left of a text. -/
abbrev Source := List Cell

/-- The characters that may stand in a text. -/
def isPrintable (c : Char) : Bool :=
  let n := c.toNat
  n == 0x09 || n == 0x0A || n == 0x0D || (0x20 ≤ n && n ≤ 0x7E) || n == 0x85 ||
    (0xA0 ≤ n && n ≤ 0xD7FF) || (0xE000 ≤ n && n ≤ 0xFFFD) || 0x10000 ≤ n

def isBlank (c : Char) : Bool := c = ' ' || c = '\t'

def isBreak (c : Char) : Bool := c = '\n' || c = '\u2028' || c = '\u2029'

/-- A blank or a break. -/
def isGap (c : Char) : Bool := isBlank c || isBreak c

/-- The characters of names: ASCII letters and digits, `-` and `_`. -/
def isNameChar (c : Char) : Bool := c.isAlphanum || c = '-' || c = '_'

/-- The cells of a text that starts at this place. -/
def cellsFrom (line column index : Nat) : List Char → Source
  | [] => []
  | '\r' :: '\n' :: cs => ⟨'\n', line, column, index⟩ :: cellsFrom (line + 1) 0 (index + 2) cs
  | c :: cs =>
    if c = '\r' ∨ c = '\u0085' then
      ⟨'\n', line, column, index⟩ :: cellsFrom (line + 1) 0 (index + 1) cs
    else if isBreak c then ⟨c, line, column, index⟩ :: cellsFrom (line + 1) 0 (index + 1) cs
    else ⟨c, line, column, index⟩ :: cellsFrom line (column + 1) (index + 1) cs

/-- The cells of a text, if all its characters are allowed. -/
def cells (text : String) : Option Source :=
  if text.toList.all isPrintable then some (cellsFrom 0 0 0 text.toList) else none

namespace Source

/-- The text of cells. -/
def text (s : Source) : String := String.ofList (s.map (·.char))

/-- The character at this distance. -/
def charAt (s : Source) (n : Nat) : Option Char := s[n]?.map (·.char)

/-- Whether the text goes on with this character. -/
def starts (s : Source) (c : Char) : Bool := s.charAt 0 == some c

/-- Whether there is a gap at this distance, or nothing. -/
def gapAt (s : Source) (n : Nat) : Bool := (s.charAt n).all isGap

/-- Whether the text goes on with a line break or ends. -/
def lineEnds (s : Source) : Bool := (s.charAt 0).all isBreak

def skipBlanks (s : Source) : Source := s.dropWhile (isBlank ·.char)

/-- A comment up to the end of its line, if one starts here. -/
def skipComment (s : Source) : Source :=
  if s.starts '#' then s.dropWhile (!isBreak ·.char) else s

/-- The next line, if the current one ends here. -/
def skipBreak (s : Source) : Source := if (s.charAt 0).any isBreak then s.drop 1 else s

/-- Whether a line starts here with the marker of a document's start or end. -/
def atMarker (s : Source) (c : Char) : Bool :=
  (s.head?.any (·.column == 0)) && s.charAt 0 == some c && s.charAt 1 == some c &&
    s.charAt 2 == some c && s.gapAt 3

def atDocumentMarker (s : Source) : Bool := s.atMarker '-' || s.atMarker '.'

end Source

/-- What stands for the line breaks of a run of blanks and breaks inside a scalar: one
line feed becomes a space, and of several the first one goes. Without a break the
blanks stay. -/
def fold (gap : Source) : String :=
  match gap.filter (isBreak ·.char) with
  | [] => Source.text gap
  | first :: more =>
    if first.char = '\n' then if more.isEmpty then " " else Source.text more
    else Source.text (first :: more)

end Condition.Yaml
