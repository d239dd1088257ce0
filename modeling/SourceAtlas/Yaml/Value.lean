import SourceAtlas.Number.Binary64
import SourceAtlas.Yaml.Fault

/-!
# YAML values

What a document stands for, and what reads it.
-/

namespace SourceAtlas.Yaml

inductive Value
  | null
  | bool (value : Bool)
  | int (value : Int)
  | float (value : Number.Binary64)
  | text (characters : String)
  | bytes (octets : List UInt8)
  /-- A date or a moment. -/
  | timestamp
  | list (items : List Value)
  | mapping (entries : List (Value × Value))
  | set (items : List Value)
  /-- One entry of an ordered mapping. -/
  | entry (key value : Value)
  /-- A collection inside itself. -/
  | enclosing
  deriving Repr, Inhabited

namespace Value

/-- The value can be the key of a mapping. -/
def isKey : Value → Bool
  | list _ | mapping _ | set _ | enclosing => false
  | _ => true

/-- Zero, nothing or empty. -/
def isEmpty : Value → Bool
  | null => true
  | bool value => !value
  | int value => value == 0
  | float value => value.isZero
  | text t => t.isEmpty
  | bytes octets => octets.isEmpty
  | timestamp => false
  | list items => items.isEmpty
  | mapping entries => entries.isEmpty
  | set items => items.isEmpty
  | entry _ _ => false
  | enclosing => false

def isText (name : String) : Value → Bool
  | text t => t == name
  | _ => false

/-- The value of a key; of several the last one counts. -/
def field? (name : String) (entries : List (Value × Value)) : Option Value :=
  (entries.reverse.find? fun entry => entry.1.isText name).map (·.2)

end Value

/-- What reads YAML: it tells the value of the only document of a text, or why there is none. -/
class Reader where
  load : List Char → Except Fault Value

end SourceAtlas.Yaml
