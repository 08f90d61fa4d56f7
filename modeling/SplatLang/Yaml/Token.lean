/-!
# Tokens of a document

Besides the marks that stand in the text there are tokens for what indentation says: where a block
collection begins and ends, and what is a key.
-/

namespace SplatLang.Yaml

inductive Token
  /-- The directive that tells the version of the format. -/
  | version (major minor : Nat)
  /-- The directive that tells what a tag handle stands for. -/
  | tagHandle (handle expansion : String)
  | documentStart
  | documentEnd
  | blockSequence
  | blockMapping
  | blockEnd
  | blockItem
  | flowSequence
  | flowSequenceEnd
  | flowMapping
  | flowMappingEnd
  | flowItem
  | key
  | value
  | anchor (name : String)
  /-- An alias of what an anchor names. -/
  | reference (name : String)
  | tag (handle suffix : String)
  | scalar (plain : Bool) (text : String)
  | streamEnd
  /-- Stands where the text can be read no further. -/
  | invalid
  deriving DecidableEq, Repr, Inhabited

end SplatLang.Yaml
