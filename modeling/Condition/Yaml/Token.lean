/-
The tokens of a YAML stream. The end of the stream is the end of the list of
tokens.
-/

namespace Condition.Yaml

inductive Style
  | plain
  | quoted
  | literal
  | folded
deriving DecidableEq

inductive Token
  | versionDirective (major minor : Nat)
  | tagDirective (handle expansion : String)
  | documentStart
  | documentEnd
  | blockSequenceStart
  | blockMappingStart
  | blockEnd
  | flowSequenceStart
  | flowSequenceEnd
  | flowMappingStart
  | flowMappingEnd
  | blockEntry
  | flowEntry
  | key
  | value
  | alias (name : String)
  | anchor (name : String)
  | tag (handle suffix : String)
  | scalar (style : Style) (text : String)
deriving DecidableEq

end Condition.Yaml
