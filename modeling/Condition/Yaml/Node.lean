/-
The nodes of a YAML document, read off its tokens. An alias is kept as the number of
the anchor that it names; `Document.resolve?` finds the node.

Anchors are numbered by how many different names have been given before, so a name
given twice takes a number that the next new name will take too. The node of a number
is the last one that started with it.
-/
import Condition.Yaml.Tokens

namespace Condition.Yaml

inductive Node
  | scalar (style : Style) (tag : Option String) (text : String)
  | sequence (items : List Node)
  | mapping (entries : List (Node × Node))
  | alias (number : Nat)

/-- A node without content. -/
def Node.empty : Node := .scalar .plain none ""

/-- A node with an anchor, and how many anchored nodes started before it. -/
structure Anchored where
  number : Nat
  order : Nat
  node : Node

structure Document where
  root : Node
  anchored : List Anchored

/-- The node behind an alias; any other node is itself. -/
def Document.resolve? (d : Document) : Node → Option Node
  | .alias number =>
    let candidates := d.anchored.filter (·.number = number)
    let latest := candidates.foldl
      (fun best a => match best with
        | some b => if b.order < a.order then some a else some b
        | none => some a)
      (none : Option Anchored)
    latest.map (·.node)
  | node => some node

/-! ## Reading -/

structure ReadState where
  tokens : List Token
  /-- The handles that tags may use, with what they stand for. -/
  handles : List (String × String)
  /-- The numbers of the anchor names given so far. -/
  names : List (String × Nat)
  anchored : List Anchored
  /-- The number of anchored nodes started. -/
  started : Nat

/-- A reader of what comes next, which fails when it is malformed. -/
abbrev Reader := StateT ReadState Option

namespace Reader

def peek : Reader (Option Token) := return (← get).tokens.head?

/-- Passes over the next token. -/
def skip : Reader Unit := modify fun s => { s with tokens := s.tokens.drop 1 }

/-- Passes over the next token if it is this one. -/
def take (t : Token) : Reader Bool := do
  if (← peek) = some t then
    skip
    return true
  else return false

/-- The next token must be this one. -/
def expect (t : Token) : Reader Unit := do
  if !(← take t) then failure

/-- Whether one of these tokens comes next. -/
def nextIn (ts : List Token) : Reader Bool := return (← peek).any (ts.contains ·)

/-- The name of an anchor, if one comes next. -/
def anchor : Reader (Option String) := do
  match ← peek with
  | some (.anchor name) =>
    skip
    return some name
  | _ => return none

/-- The full tag, if one comes next. A handle must have been declared. -/
def tag : Reader (Option String) := do
  match ← peek with
  | some (.tag handle suffix) =>
    skip
    if handle = "" then return some suffix
    match (← get).handles.lookup handle with
    | some expansion => return some (expansion ++ suffix)
    | none => failure
  | _ => return none

/-- An anchor and a tag in either order, as far as they are there. -/
def properties : Reader (Option String × Option String) := do
  match ← anchor with
  | some name => return (some name, ← tag)
  | none =>
    let t ← tag
    if t.isSome then return (← anchor, t) else return (none, none)

/-- Notes that an anchored node starts, and gives its number and its order. -/
def startAnchored (name : String) : Reader (Nat × Nat) := do
  let s ← get
  let number := s.names.length
  set { s with
    names := (name, number) :: s.names.filter (·.1 ≠ name)
    started := s.started + 1 }
  return (number, s.started)

/-- Notes the node of an anchor. -/
def finishAnchored (place : Option (Nat × Nat)) (node : Node) : Reader Node := do
  match place with
  | some (number, order) =>
    modify fun s => { s with anchored := ⟨number, order, node⟩ :: s.anchored }
    return node
  | none => return node

mutual

/-- A node. Block collections may stand only where `block` says so, and a sequence
without indentation of its own only where `indentless` says so. The number bounds the
nesting and the length of collections. -/
def node (block indentless : Bool) : Nat → Reader Node
  | 0 => failure
  | n + 1 => do
    match ← peek with
    | some (.alias name) =>
      skip
      match (← get).names.lookup name with
      | some number => return .alias number
      | none => failure
    | _ =>
      let (name, tag) ← properties
      let place ← match name with
        | some name => some <$> startAnchored name
        | none => pure none
      finishAnchored place (← content block indentless (name.isSome || tag.isSome) tag n)

/-- The content of a node, which may be missing behind an anchor or a tag. -/
def content (block indentless mayMiss : Bool) (tag : Option String) : Nat → Reader Node
  | 0 => failure
  | n + 1 => do
    match ← peek with
    | some (.scalar style text) =>
      skip
      return .scalar style tag text
    | some .flowSequenceStart =>
      skip
      return .sequence (← flowItems true n)
    | some .flowMappingStart =>
      skip
      return .mapping (← flowEntries true n)
    | some .blockEntry =>
      if indentless then return .sequence (← indentlessItems n)
      else if mayMiss then return .scalar .plain tag ""
      else failure
    | some .blockSequenceStart =>
      if block then
        skip
        return .sequence (← blockItems n)
      else if mayMiss then return .scalar .plain tag ""
      else failure
    | some .blockMappingStart =>
      if block then
        skip
        return .mapping (← blockEntries n)
      else if mayMiss then return .scalar .plain tag ""
      else failure
    | _ => if mayMiss then return .scalar .plain tag "" else failure

/-- The items of a block sequence up to its end. -/
def blockItems : Nat → Reader (List Node)
  | 0 => failure
  | n + 1 => do
    if ← take .blockEntry then
      let item ← if ← nextIn [.blockEntry, .blockEnd] then pure .empty else node true false n
      return item :: (← blockItems n)
    else
      expect .blockEnd
      return []

/-- The items of a sequence that is not indented more than the mapping around it. -/
def indentlessItems : Nat → Reader (List Node)
  | 0 => failure
  | n + 1 => do
    if ← take .blockEntry then
      let item ← if ← nextIn [.blockEntry, .key, .value, .blockEnd] then pure .empty
        else node true false n
      return item :: (← indentlessItems n)
    else return []

/-- A key or a value of a block mapping, behind its indicator. -/
def blockPart : Nat → Reader Node
  | 0 => failure
  | n + 1 => do
    if ← nextIn [.key, .value, .blockEnd] then return .empty else node true true n

/-- The entries of a block mapping up to its end. -/
def blockEntries : Nat → Reader (List (Node × Node))
  | 0 => failure
  | n + 1 => do
    if ← take .key then
      let key ← blockPart n
      let value ← if ← take .value then blockPart n else pure .empty
      return (key, value) :: (← blockEntries n)
    else
      expect .blockEnd
      return []

/-- The items of a flow sequence up to its end. An item may be a mapping of one entry. -/
def flowItems (first : Bool) : Nat → Reader (List Node)
  | 0 => failure
  | n + 1 => do
    if ← take .flowSequenceEnd then return []
    if !first then expect .flowEntry
    if ← take .key then
      let item ← flowPair n
      return item :: (← flowItems false n)
    else if ← take .flowSequenceEnd then return []
    else
      let item ← node false false n
      return item :: (← flowItems false n)

/-- A mapping of one entry inside a flow sequence, behind the key indicator. Where the
key is missing, the token in its place goes with it. -/
def flowPair : Nat → Reader Node
  | 0 => failure
  | n + 1 => do
    let key ←
      if ← nextIn [.value, .flowEntry, .flowSequenceEnd] then do
        skip
        pure .empty
      else node false false n
    let value ←
      if ← take .value then
        if ← nextIn [.flowEntry, .flowSequenceEnd] then pure .empty else node false false n
      else pure .empty
    return .mapping [(key, value)]

/-- The entries of a flow mapping up to its end. -/
def flowEntries (first : Bool) : Nat → Reader (List (Node × Node))
  | 0 => failure
  | n + 1 => do
    if ← take .flowMappingEnd then return []
    if !first then expect .flowEntry
    if ← take .key then
      let key ← if ← nextIn [.value, .flowEntry, .flowMappingEnd] then pure .empty
        else node false false n
      let value ←
        if ← take .value then
          if ← nextIn [.flowEntry, .flowMappingEnd] then pure .empty else node false false n
        else pure .empty
      return (key, value) :: (← flowEntries false n)
    else if ← take .flowMappingEnd then return []
    else
      let key ← node false false n
      return (key, .empty) :: (← flowEntries false n)

end

/-! ## Documents -/

/-- The directives before a document, each at most once: the version, which must be 1.1
or 1.2, and the handles of tags. -/
def directives (versionSeen : Bool) : Nat → Reader Unit
  | 0 => failure
  | n + 1 => do
    match ← peek with
    | some (.versionDirective major minor) =>
      skip
      if versionSeen || major ≠ 1 || (minor ≠ 1 && minor ≠ 2) then failure
      directives true n
    | some (.tagDirective handle expansion) =>
      skip
      if ((← get).handles.lookup handle).isSome then failure
      modify fun s => { s with handles := (handle, expansion) :: s.handles }
      directives versionSeen n
    | _ => return ()

/-- The handles that need no declaration come into force behind those declared. -/
def defaultHandles : Reader Unit :=
  modify fun s =>
    { s with handles := s.handles ++ [("!", "!"), ("!!", "tag:yaml.org,2002:")] }

/-- Whether the next token announces a document with a header. -/
def atHeader : Reader Bool := do
  match ← peek with
  | some (.versionDirective ..) | some (.tagDirective ..) | some .documentStart => return true
  | _ => return false

/-- The root of the first document. -/
def root (n : Nat) : Reader Node := do
  if ← atHeader then
    directives false n
    defaultHandles
    expect .documentStart
    if (← atHeader) || (← nextIn [.documentEnd]) || (← peek).isNone then return .empty
    else node true false n
  else
    defaultHandles
    node true false n

/-- Markers of a document's end, as many as there are. -/
def documentEnds : Nat → Reader Unit
  | 0 => failure
  | n + 1 => do
    if ← take .documentEnd then documentEnds n else return ()

end Reader

/-- The only document of a text, none if the text has no content at all. -/
def Document.read (text : String) : Option (Option Document) := do
  let ts ← tokens text
  if ts.isEmpty then return none
  let bound := 4 * ts.length + 8
  let reader : Reader Node := do
    let root ← Reader.root bound
    Reader.documentEnds bound
    if (← Reader.peek).isSome then failure
    return root
  let (root, s) ← reader.run ⟨ts, [], [], [], 0⟩
  return some ⟨root, s.anchored⟩

end Condition.Yaml
