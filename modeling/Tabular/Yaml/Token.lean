/-!
# YAML tokens

The units that a YAML text consists of. The start of a block collection, its end, and the key of a
member that no `?` announces have no characters of their own.
-/

namespace Tabular.Yaml

inductive Style where
  | plain
  | singleQuoted
  | doubleQuoted
  | literal
  | folded
deriving DecidableEq

/-- The tag of a node, in bytes, since the escapes in a tag may stand for any. -/
abbrev Tag := List UInt8

/-- The tag that is written with these characters. -/
def Tag.ofString (s : String) : Tag :=
  s.toUTF8.toList

/-- A token; anchors and aliases carry a label. -/
inductive Token (label : Type) where
  | versionDirective (major minor : Nat)
  | tagDirective (handle : String) (stem : Tag)
  | documentStart
  | documentEnd
  | sequenceStart
  | mappingStart
  | blockEnd
  | flowSequenceStart
  | flowSequenceEnd
  | flowMappingStart
  | flowMappingEnd
  | entry
  | flowEntry
  | key
  | value
  | reference (name : label)
  | anchor (name : label)
  | tag (handle : String) (suffix : Tag)
  | scalar (style : Style) (text : String)
deriving DecidableEq

end Tabular.Yaml
