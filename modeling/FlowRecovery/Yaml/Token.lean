/-
The tokens of a YAML text.

Blocks have no marks of their own in the text: where one starts and where it ends
follows from the indentation, but both are tokens like brackets and braces.
-/
import FlowRecovery.Yaml.Tag

namespace FlowRecovery.Yaml

/-- How a scalar is written. -/
inductive Style where
  | plain
  | quoted
  | literal
  | folded
  deriving DecidableEq, Repr, Inhabited

/-- A token. -/
inductive Token where
  | directive (directive : Directive)
  | documentStart
  | documentEnd
  | blockSequence
  | blockMapping
  | blockEnd
  | flowSequence
  | flowSequenceEnd
  | flowMapping
  | flowMappingEnd
  | blockEntry
  | flowEntry
  | key
  | value
  | reference (name : String)
  | anchor (name : String)
  | tag (tag : Tag)
  | scalar (text : String) (style : Style)
  deriving DecidableEq, Repr, Inhabited

end FlowRecovery.Yaml
