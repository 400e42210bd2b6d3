/-
JSON documents as they stand in a text: numbers keep their spelling, objects keep
their fields in order, repeated ones included.
-/

namespace Condition.Json

/-- The text of a string, which is absent when an escape writes half of a surrogate
pair alone: such a string is well formed but writes no text. -/
abbrev Text := Option String

inductive Value
  | null
  | bool (b : Bool)
  | number (spelling : List Char)
  | string (text : Text)
  | array (items : List Value)
  | object (fields : List (Text × Value))

end Condition.Json
