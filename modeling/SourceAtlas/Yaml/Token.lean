/-!
# YAML tokens

The tokens of a text. Starts and ends of block collections are told by indentation, and a key is
marked only when its colon is met.
-/

namespace SourceAtlas.Yaml

/-- A directive in front of a document. -/
inductive Directive
  | version (major minor : Nat)
  /-- What a handle of types stands for. -/
  | handle (name start : String)
  | other
  deriving DecidableEq, Repr

inductive Token
  | directive (directive : Directive)
  | documentStart
  | documentEnd
  | streamEnd
  | blockSequenceStart
  | blockMappingStart
  | blockEnd
  | flowSequenceStart
  | flowSequenceEnd
  | flowMappingStart
  | flowMappingEnd
  | blockEntry
  | flowEntry
  | key
  | value
  | reference (name : String)
  | anchor (name : String)
  /-- A type: the end of its name, and the handle in front of it. -/
  | type (handle : Option String) (rest : String)
  /-- A scalar; a plain one stands without quotes. -/
  | scalar (text : List Char) (plain : Bool)
  deriving DecidableEq, Repr

end SourceAtlas.Yaml
