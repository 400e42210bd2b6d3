/-
From the characters of a YAML text to its tokens. Block collections are opened and
closed by indentation. Whether a token starts the key of a mapping is known only when
the colon behind it is met, so for each flow level the scanner keeps the place where a
key may have started, and puts the tokens that open a key there later.
-/
import Condition.Yaml.Scalar
import Condition.Yaml.Token

namespace Condition.Yaml

/-- Where a simple key may have started. A key that the indentation demands must turn
out to be one. -/
structure KeyStart where
  required : Bool
  /-- The number of tokens before the key. -/
  token : Nat
  line : Nat
  column : Nat
  index : Nat

structure ScanState where
  source : Source
  tokens : Array Token
  /-- The indentation of the innermost block collection, and those around it. -/
  indent : Int
  indents : List Int
  /-- The possible key of the current level, and those of the levels around it, one for
  each open flow collection. -/
  keyStart : Option KeyStart
  keyStarts : List (Option KeyStart)
  keyAllowed : Bool

namespace ScanState

def start (source : Source) : ScanState := ⟨source, #[], -1, [], none, [], true⟩

def inFlow (s : ScanState) : Bool := !s.keyStarts.isEmpty

def emit (s : ScanState) (t : Token) : ScanState := { s with tokens := s.tokens.push t }

/-- Passes over the next characters. -/
def drop (s : ScanState) (n : Nat) : ScanState := { s with source := s.source.drop n }

/-- The column of the next character. -/
def column (s : ScanState) : Int := (s.source.head?.map fun c => (c.column : Int)).getD (-1)

/-! ## Keys and indentation -/

/-- No key starts at the place kept, which is an error if one had to. -/
def dropKey (s : ScanState) : Option ScanState :=
  if s.keyStart.any (·.required) then none else some { s with keyStart := none }

/-- Keeps the current place if a key may start here. -/
def saveKey (s : ScanState) : Option ScanState :=
  if s.keyAllowed then do
    let s ← s.dropKey
    match s.source with
    | [] => return s
    | c :: _ =>
      let required := !s.inFlow && s.indent == (c.column : Int)
      return { s with keyStart := some ⟨required, s.tokens.size, c.line, c.column, c.index⟩ }
  else some s

/-- A key ends on its line and is at most 1024 characters long. -/
def isStale (c : Cell) (k : KeyStart) : Bool := k.line < c.line || k.index + 1024 < c.index

/-- Gives up the places kept from which no key can start any more. -/
def dropStaleKeys (s : ScanState) : Option ScanState :=
  match s.source with
  | [] => some s
  | c :: _ =>
    let refresh (k : Option KeyStart) : Option (Option KeyStart) :=
      match k with
      | some k => if isStale c k then (if k.required then none else some none) else some (some k)
      | none => some none
    do return { s with keyStart := ← refresh s.keyStart, keyStarts := ← s.keyStarts.mapM refresh }

/-- Opens a block collection if the column is beyond the indentation, with its token
put before the token of this number. -/
def openBlock (s : ScanState) (column : Nat) (number : Nat) (t : Token) : ScanState :=
  if !s.inFlow && s.indent < (column : Int) then
    { s with
      indents := s.indent :: s.indents
      indent := column
      tokens := s.tokens.insertIdxIfInBounds number t }
  else s

/-- Closes the block collections that are indented by more than this. -/
def closeBlocks (s : ScanState) (column : Int) : ScanState :=
  if s.inFlow then s else go s.indents s
where
  go : List Int → ScanState → ScanState
    | [], s => s
    | outer :: indents, s =>
      if column < s.indent then
        go indents { s with indent := outer, indents := indents, tokens := s.tokens.push .blockEnd }
      else s

/-! ## Blanks and comments between tokens -/

/-- Passes over blanks, comments and line breaks. Tabs count as blanks only where no key
may start; a line break lets a key start in block collections. -/
def skipSpace (s : ScanState) : Nat → ScanState
  | 0 => s
  | n + 1 =>
    let afterMark := match s.source with
      | c :: rest => if c.column = 0 && c.char = '\uFEFF' then rest else s.source
      | [] => []
    let tabs := s.inFlow || !s.keyAllowed
    let blanksSkipped := afterMark.dropWhile fun c => c.char = ' ' || (tabs && c.char = '\t')
    let source := Source.skipComment blanksSkipped
    if (Source.charAt source 0).any isBreak then
      skipSpace { s with source := source.drop 1, keyAllowed := s.keyAllowed || !s.inFlow } n
    else { s with source := source }

/-! ## Tokens of one indicator -/

/-- An indicator that opens a flow collection, which may itself be a key. -/
def openFlow (s : ScanState) (t : Token) : Option ScanState := do
  let s ← s.saveKey
  return { s with keyStarts := s.keyStart :: s.keyStarts, keyStart := none,
                  keyAllowed := true }.drop 1 |>.emit t

def closeFlow (s : ScanState) (t : Token) : Option ScanState := do
  let s ← s.dropKey
  let s := match s.keyStarts with
    | k :: ks => { s with keyStart := k, keyStarts := ks }
    | [] => s
  return { s with keyAllowed := false }.drop 1 |>.emit t

def flowEntry (s : ScanState) : Option ScanState := do
  let s ← s.dropKey
  return { s with keyAllowed := true }.drop 1 |>.emit .flowEntry

/-- Opens a block collection at the current column for an indicator, which must stand
where a key may start. -/
def openHere (s : ScanState) (t : Token) : Option ScanState :=
  if s.inFlow then some s
  else if s.keyAllowed then some (s.openBlock s.column.toNat s.tokens.size t)
  else none

def blockEntry (s : ScanState) : Option ScanState := do
  let s ← (← s.openHere .blockSequenceStart).dropKey
  return { s with keyAllowed := true }.drop 1 |>.emit .blockEntry

def explicitKey (s : ScanState) : Option ScanState := do
  let s ← (← s.openHere .blockMappingStart).dropKey
  return { s with keyAllowed := !s.inFlow }.drop 1 |>.emit .key

/-- The colon before a value. If a key may have started before it, it did. -/
def value (s : ScanState) : Option ScanState :=
  match s.keyStart with
  | some k =>
    let s := { s with tokens := s.tokens.insertIdxIfInBounds k.token .key }
    let s := s.openBlock k.column k.token .blockMappingStart
    some ({ s with keyStart := none, keyAllowed := false }.drop 1 |>.emit .value)
  | none => do
    let s ← s.openHere .blockMappingStart
    return { s with keyAllowed := !s.inFlow }.drop 1 |>.emit .value

/-! ## Directives and document markers -/

/-- What a directive or a document marker ends: all block collections and any key. -/
def endBlocks (s : ScanState) : Option ScanState := do
  let s ← (s.closeBlocks (-1)).dropKey
  return { s with keyAllowed := false }

def documentMarker (s : ScanState) (t : Token) : Option ScanState := do
  return (← s.endBlocks).drop 3 |>.emit t

/-- A number of up to nine digits. -/
def versionNumber (s : Source) : Option (Nat × Source) := do
  let digits := (s.takeWhile (·.char.isDigit)).map (·.char)
  if 9 < digits.length then none
  let n ← Integer.natural? 10 digits
  return (n, s.dropWhile (·.char.isDigit))

/-- A tag handle: `!`, and name characters and a second `!` if they follow. -/
def tagHandle (s : Source) : Option (String × Source) :=
  if s.starts '!' then
    let name := (s.drop 1).takeWhile (isNameChar ·.char)
    let rest := (s.drop 1).dropWhile (isNameChar ·.char)
    if Source.starts rest '!' then some ("!" ++ Source.text name ++ "!", rest.drop 1)
    else some ("!" ++ Source.text name, rest)
  else none

/-- The characters of tags. Flow indicators are among them only where nothing else can
end the tag. -/
def isTagChar (verbatim : Bool) (c : Char) : Bool :=
  isNameChar c || ";/?:@&=+$.%!~*'()".toList.contains c || (verbatim && ",[]".toList.contains c)

/-- The number of bytes that a byte in UTF-8 announces, itself included. -/
def announcedBytes (byte : Nat) : Option Nat :=
  if byte < 0x80 then some 1
  else if byte / 0x20 = 6 then some 2
  else if byte / 0x10 = 14 then some 3
  else if byte / 0x08 = 30 then some 4
  else none

/-- The byte of a percent escape. -/
def escapedByte (s : Source) : Option (Nat × Source) :=
  if s.starts '%' then do
    let digits := ((s.drop 1).take 2).map (·.char)
    if digits.length ≠ 2 then none
    return (← Integer.digits? 16 0 digits, s.drop 3)
  else none

/-- So many more bytes of a character, each escaped. -/
def continuationBytes : Nat → Source → Option Source
  | 0, s => some s
  | n + 1, s => do
    let (byte, rest) ← escapedByte s
    if byte / 0x40 = 2 then continuationBytes n rest else none

/-- The characters of a tag. Escapes stand for the bytes of a character in UTF-8; which
character beyond ASCII it is makes no difference here. -/
def tagText (verbatim : Bool) (text : String) : Nat → Source → Option (String × Source)
  | 0, _ => none
  | _ + 1, [] => some (text, [])
  | n + 1, c :: s =>
    if c.char = '%' then do
      let (byte, rest) ← escapedByte (c :: s)
      let width ← announcedBytes byte
      let rest ← continuationBytes (width - 1) rest
      let char := if width = 1 then Char.ofNat byte else '\uFFFD'
      tagText verbatim (text.push char) n rest
    else if isTagChar verbatim c.char then tagText verbatim (text.push c.char) n s
    else some (text, c :: s)

def readTagText (verbatim : Bool) (s : Source) : Option (String × Source) :=
  tagText verbatim "" (s.length + 1) s

/-- The content of a directive, behind the percent sign. -/
def directiveBody (s : Source) : Option (Token × Source) := do
  let name := Source.text (s.takeWhile (isNameChar ·.char))
  let rest : Source := s.dropWhile (isNameChar ·.char)
  if !rest.gapAt 0 then none
  let rest := rest.skipBlanks
  if name = "YAML" then
    let (major, rest) ← versionNumber rest
    if !rest.starts '.' then none
    let (minor, rest) ← versionNumber (rest.drop 1)
    return (.versionDirective major minor, rest)
  else if name = "TAG" then
    let (handle, rest) ← tagHandle rest
    if handle ≠ "!" && (handle.length < 2 || !handle.endsWith "!") then none
    if !(rest.charAt 0).any isBlank then none
    let (expansion, rest) ← readTagText true rest.skipBlanks
    if expansion = "" || !rest.gapAt 0 then none
    return (.tagDirective handle expansion, rest)
  else none

def directive (s : ScanState) : Option ScanState := do
  let s ← s.endBlocks
  let (token, rest) ← directiveBody (s.source.drop 1)
  let rest := rest.skipBlanks.skipComment
  if !rest.lineEnds then none
  return { s with source := rest.skipBreak }.emit token

/-! ## Anchors, aliases and tags -/

/-- The characters that may follow the name of an anchor. -/
def endsName (s : Source) : Bool :=
  s.gapAt 0 || (s.charAt 0).any ("?:,]\x7d%@`".toList.contains ·)

/-- The name of an anchor or alias, whose indicator comes next. -/
def named (s : ScanState) (token : String → Token) : Option ScanState := do
  let s ← s.saveKey
  let source := s.source.drop 1
  let name := source.takeWhile (isNameChar ·.char)
  let rest : Source := source.dropWhile (isNameChar ·.char)
  if name.isEmpty || !endsName rest then none
  return { s with source := rest, keyAllowed := false }.emit (token (Source.text name))

/-- The handle and the suffix of a tag. The tag `!` has no handle. -/
def tagParts (s : Source) : Option (Token × Source) :=
  if s.charAt 1 == some '<' then do
    let (suffix, rest) ← readTagText true (s.drop 2)
    if suffix = "" || !rest.starts '>' then none
    return (.tag "" suffix, rest.drop 1)
  else do
    let (handle, rest) ← tagHandle s
    if 2 ≤ handle.length && handle.endsWith "!" then
      let (suffix, rest) ← readTagText false rest
      if suffix = "" then none
      return (.tag handle suffix, rest)
    else
      let (more, rest) ← readTagText false rest
      let suffix := String.ofList (handle.toList.drop 1) ++ more
      if suffix = "" then return (.tag "" "!", rest)
      return (.tag "!" suffix, rest)

def tag (s : ScanState) : Option ScanState := do
  let s ← s.saveKey
  let (token, rest) ← tagParts s.source
  if !(rest.gapAt 0 || (s.inFlow && rest.starts ',')) then none
  return { s with source := rest, keyAllowed := false }.emit token

/-! ## Scalars -/

def block (s : ScanState) (style : Style) : Option ScanState := do
  let s ← s.dropKey
  let (text, rest) ← blockScalar (style = .literal) s.indent (s.source.drop 1)
  return { s with source := rest, keyAllowed := true }.emit (.scalar style text)

def quoted (s : ScanState) (quote : Char) : Option ScanState := do
  let s ← s.saveKey
  let (text, rest) ← quotedScalar quote (s.source.drop 1)
  return { s with source := rest, keyAllowed := false }.emit (.scalar .quoted text)

def plain (s : ScanState) : Option ScanState := do
  let s ← s.saveKey
  let (text, rest, broken) ← plainScalar s.inFlow (s.indent + 1) s.source
  return { s with source := rest, keyAllowed := broken }.emit (.scalar .plain text)

/-! ## All tokens -/

/-- The indicators that cannot start a plain scalar without more ado. -/
def isIndicator (c : Char) : Bool := "-?:,[]\x7b\x7d#&*!|>'\"%@`".toList.contains c

/-- Reads the token whose first character comes next. -/
def token (s : ScanState) (c : Char) : Option ScanState :=
  let flow := s.inFlow
  if s.column = 0 && c = '%' then s.directive
  else if s.source.atMarker '-' then s.documentMarker .documentStart
  else if s.source.atMarker '.' then s.documentMarker .documentEnd
  else if c = '[' then s.openFlow .flowSequenceStart
  else if c = '{' then s.openFlow .flowMappingStart
  else if c = ']' then s.closeFlow .flowSequenceEnd
  else if c = '}' then s.closeFlow .flowMappingEnd
  else if c = ',' then s.flowEntry
  else if c = '-' && s.source.gapAt 1 then s.blockEntry
  else if c = '?' && (flow || s.source.gapAt 1) then s.explicitKey
  else if c = ':' && (flow || s.source.gapAt 1) then s.value
  else if c = '*' then s.named .alias
  else if c = '&' then s.named .anchor
  else if c = '!' then s.tag
  else if c = '|' && !flow then s.block .literal
  else if c = '>' && !flow then s.block .folded
  else if c = '\'' || c = '"' then s.quoted c
  else if !(isGap c || isIndicator c) || (c = '-' && !(s.source.charAt 1).any isBlank) ||
      (!flow && (c = '?' || c = ':') && !s.source.gapAt 1) then s.plain
  else none

/-- Reads the tokens that are left. -/
def tokensFrom (s : ScanState) : Nat → Option (List Token)
  | 0 => none
  | n + 1 => do
    let s ← (s.skipSpace (s.source.length + 1)).dropStaleKeys
    match s.source with
    | [] =>
      let s ← (s.closeBlocks (-1)).dropKey
      return s.tokens.toList
    | c :: _ =>
      let s ← (s.closeBlocks c.column).token c.char
      tokensFrom s n

end ScanState

/-- The tokens of a text. -/
def tokens (text : String) : Option (List Token) := do
  let source ← cells text
  (ScanState.start source).tokensFrom (source.length + 1)

end Condition.Yaml
