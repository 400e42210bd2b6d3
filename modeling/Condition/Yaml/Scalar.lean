/-
Reading the scalars of YAML: plain ones, those in quotes, and blocks. Each reader
starts behind the character that announces the scalar, a plain one at its first
character, and gives the text with what follows.
-/
import Condition.Integer
import Condition.Yaml.Source

namespace Condition.Yaml

/-! ## Plain scalars -/

/-- The characters up to the next gap or indicator that ends a plain scalar. Inside
flow collections a colon right before an indicator is an error. -/
def plainWord (inFlow : Bool) : Source → Option (String × Source)
  | [] => some ("", [])
  | c :: s =>
    let next := s.head?.map (·.char)
    if isGap c.char then some ("", c :: s)
    else if inFlow && c.char = ':' && next.any (",?[]\x7b\x7d".toList.contains ·) then none
    else if (c.char = ':' && next.all isGap) ||
        (inFlow && ",[]\x7b\x7d".toList.contains c.char) then some ("", c :: s)
    else (plainWord inFlow s).map fun (word, rest) => (c.char.toString ++ word, rest)

/-- The rest of a plain scalar, given its text so far and the gap behind it. A line
that is indented by less than `indent` ends the scalar. The last part of the answer is
whether the scalar is followed by a line break. -/
def plainRest (inFlow : Bool) (indent : Int) (text : String) (gap : Source) :
    Nat → Source → Option (String × Source × Bool)
  | 0, _ => none
  | n + 1, s => do
    let broken := gap.any (isBreak ·.char)
    if s.atDocumentMarker || s.starts '#' then return (text, s, broken)
    let (word, rest) ← plainWord inFlow s
    if word = "" then return (text, s, broken)
    let text := text ++ fold gap ++ word
    let gap := rest.takeWhile (isGap ·.char)
    let after := rest.dropWhile (isGap ·.char)
    if gap.isEmpty then return (text, rest, false)
    let indentation := gap.dropWhile (!isBreak ·.char)
    if indentation.any fun c => c.char = '\t' && (c.column : Int) < indent then none
    if !inFlow && after.head?.any fun c => (c.column : Int) < indent then
      return (text, after, gap.any (isBreak ·.char))
    plainRest inFlow indent text gap n after

def plainScalar (inFlow : Bool) (indent : Int) (s : Source) : Option (String × Source × Bool) :=
  plainRest inFlow indent "" [] (s.length + 1) s

/-! ## Quoted scalars -/

/-- The value of an escape code of so many hexadecimal digits. -/
def escapeCode (width : Nat) (s : Source) : Option (Char × Source) := do
  let digits := (s.take width).map (·.char)
  if digits.length ≠ width then none
  let code ← Integer.digits? 16 0 digits
  if (0xD800 ≤ code ∧ code ≤ 0xDFFF) ∨ 0x10FFFF < code then none
  return (Char.ofNat code, s.drop width)

/-- The character of an escape, behind its backslash. -/
def escape : Source → Option (Char × Source)
  | [] => none
  | c :: s =>
    match c.char with
    | '0' => some ('\x00', s)
    | 'a' => some ('\x07', s)
    | 'b' => some ('\x08', s)
    | 't' => some ('\t', s)
    | '\t' => some ('\t', s)
    | 'n' => some ('\n', s)
    | 'v' => some ('\x0b', s)
    | 'f' => some ('\x0c', s)
    | 'r' => some ('\r', s)
    | 'e' => some ('\x1b', s)
    | ' ' => some (' ', s)
    | '"' => some ('"', s)
    | '/' => some ('/', s)
    | '\\' => some ('\\', s)
    | 'N' => some ('\u0085', s)
    | '_' => some ('\u00a0', s)
    | 'L' => some ('\u2028', s)
    | 'P' => some ('\u2029', s)
    | 'x' => escapeCode 2 s
    | 'u' => escapeCode 4 s
    | 'U' => escapeCode 8 s
    | _ => none

/-- The characters up to the closing quote or the next gap, and whether that gap starts
behind an escaped line break. -/
def quotedWord (quote : Char) (text : String) : Nat → Source → Option (String × Source × Bool)
  | 0, _ => none
  | _ + 1, [] => some (text, [], false)
  | n + 1, c :: s =>
    if isGap c.char then some (text, c :: s, false)
    else if quote = '\'' && c.char = quote && Source.starts s quote then
      quotedWord quote (text.push quote) n (s.drop 1)
    else if c.char = quote then some (text, c :: s, false)
    else if quote = '"' && c.char = '\\' then
      if (Source.charAt s 0).any isBreak then some (text, s.drop 1, true)
      else match escape s with
        | some (e, rest) => quotedWord quote (text.push e) n rest
        | none => none
    else quotedWord quote (text.push c.char) n s

/-- The rest of a quoted scalar. -/
def quotedRest (quote : Char) (text : String) : Nat → Source → Option (String × Source)
  | 0, _ => none
  | n + 1, s => do
    if s.atDocumentMarker || s.isEmpty then none
    let (text, rest, escaped) ← quotedWord quote text (s.length + 1) s
    if rest.starts quote then return (text, rest.drop 1)
    let gap := rest.takeWhile (isGap ·.char)
    let gapText := if escaped then Source.text (gap.filter (isBreak ·.char)) else fold gap
    quotedRest quote (text ++ gapText) n (rest.dropWhile (isGap ·.char))

def quotedScalar (quote : Char) (s : Source) : Option (String × Source) :=
  quotedRest quote "" (s.length + 1) s

/-! ## Block scalars -/

/-- What happens to the line breaks at the end of a block. -/
inductive Chomping
  | strip | clip | keep
deriving DecidableEq

def chompingOf? : Char → Option Chomping
  | '+' => some .keep
  | '-' => some .strip
  | _ => none

/-- The digit of an indentation indicator, which is not 0. -/
def indentDigit? (c : Char) : Option Nat := if c.isDigit then some (c.toNat - '0'.toNat) else none

/-- The two indicators of a block's header, in either order. -/
def blockHeader (s : Source) : Option (Chomping × Option Nat × Source) := do
  match (s.charAt 0).bind chompingOf? with
  | some chomping =>
    match (s.charAt 1).bind indentDigit? with
    | some 0 => none
    | some n => return (chomping, some n, s.drop 2)
    | none => return (chomping, none, s.drop 1)
  | none =>
    match (s.charAt 0).bind indentDigit? with
    | some 0 => none
    | some n =>
      match (s.charAt 1).bind chompingOf? with
      | some chomping => return (chomping, some n, s.drop 2)
      | none => return (.clip, some n, s.drop 1)
    | none => return (.clip, none, s)

/-- The breaks of the empty lines that come next, the widest indentation met, and the
text behind the indentation of the first line that is not empty. An indentation that is
not known yet is 0. A tab inside the indentation is an error. -/
def emptyLines (indent : Nat) : Source → Option (Source × Nat × Source)
  | [] => some ([], 0, [])
  | c :: s =>
    let inside := indent = 0 || c.column < indent
    if inside && c.char = ' ' then
      (emptyLines indent s).map fun (breaks, widest, rest) =>
        (breaks, max widest (c.column + 1), rest)
    else if inside && c.char = '\t' then none
    else if isBreak c.char then
      (emptyLines indent s).map fun (breaks, widest, rest) =>
        (c :: breaks, max widest c.column, rest)
    else some ([], c.column, c :: s)

/-- The lines of a block. `pending` are the breaks behind the text so far, the first of
them that of its last line; `blankLine` tells whether that line starts with a blank. -/
def blockLines (literal : Bool) (indent : Nat) (text : String) (first : Source)
    (more : Source) (blankLine : Bool) : Nat → Source → Option (String × Source × Source × Source)
  | 0, _ => none
  | n + 1, s =>
    if s.head?.any (·.column == indent) then do
      let blank := (s.charAt 0).any isBlank
      let joined :=
        if !literal && (first.charAt 0 == some '\n') && !blankLine && !blank then
          if more.isEmpty then " " else ""
        else Source.text first
      let line := s.takeWhile (!isBreak ·.char)
      let rest := s.dropWhile (!isBreak ·.char)
      let (breaks, _, after) ← emptyLines indent (rest.drop 1)
      blockLines literal indent (text ++ joined ++ Source.text more ++ Source.text line)
        (rest.take 1) breaks blank n after
    else some (text, first, more, s)

/-- A block scalar inside a collection of this indentation. -/
def blockScalar (literal : Bool) (parent : Int) (s : Source) : Option (String × Source) := do
  let (chomping, increment, s) ← blockHeader s
  let s := s.skipBlanks.skipComment
  if !s.lineEnds then none
  let s := s.drop 1
  let known := match increment with
    | some n => if 0 ≤ parent then parent.toNat + n else n
    | none => 0
  let (breaks, widest, s) ← emptyLines known s
  let indent := if known = 0 then max (max widest (parent + 1).toNat) 1 else known
  let (text, first, more, rest) ← blockLines literal indent "" [] breaks false (s.length + 1) s
  let tail := match chomping with
    | .strip => ""
    | .clip => Source.text first
    | .keep => Source.text first ++ Source.text more
  return (text ++ tail, rest)

end Condition.Yaml
