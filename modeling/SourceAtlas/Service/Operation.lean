import SourceAtlas.Json.Value
import SourceAtlas.Settings
import SourceAtlas.Tag.Proposal

/-!
# Operations of the service

Each operation has a path and a method, and expects a body of a certain shape. What an operation is
told is taken from a body of that shape.
-/

namespace SourceAtlas.Service

/-- What is expected of a value. -/
inductive Shape
  | text
  | integer
  | truth
  | nullable (shape : Shape)
  | list (shape : Shape)
  /-- Fields by name, each with the value that it has when it is missing, if it may be. -/
  | record (fields : List (String × Shape × Option Json))

structure GenerateBody where
  path : String
  overrides : Option Settings.Overrides
  deriving DecidableEq, Repr

structure WriteBody where
  path : String
  overview : String
  index : String
  tags : List InlineTag
  deriving DecidableEq, Repr

namespace Shape

def overrides : Shape :=
  .record
    [("max_inline_tags", .nullable .integer, some .null),
     ("domain_inference_sensitivity", .nullable .text, some .null),
     ("exclude_patterns", .list .text, some (.array []))]

def generateBody : Shape :=
  .record [("path", .text, none), ("settings", .nullable overrides, some .null)]

def tag : Shape :=
  .record
    [("filePath", .text, none), ("relativePath", .text, none),
     ("currentTag", .nullable .text, some .null), ("suggestedTag", .text, none),
     ("reason", .text, some (.string "")), ("selected", .truth, some (.bool false))]

def writeBody : Shape :=
  .record
    [("path", .text, none), ("claudeMd", .text, none), ("repoIndex", .text, none),
     ("inlineTags", .list tag, some (.array []))]

def statusBody : Shape := .record [("path", .text, none)]

end Shape

/-! ## Reading values of a shape -/

def textOf? : Json → Option String
  | .string text => some text
  | _ => none

def integerOf? : Json → Option Int
  | .int n => some n
  | _ => none

def truthOf? : Json → Option Bool
  | .bool b => some b
  | _ => none

def nullableOf? {α : Type} (read : Json → Option α) : Json → Option (Option α)
  | .null => some none
  | value => (read value).map some

def listOf? {α : Type} (read : Json → Option α) : Json → Option (List α)
  | .array items => items.mapM read
  | _ => none

def fieldOf? {α : Type} (value : Json) (name : String) (read : Json → Option α) : Option α :=
  (value.field? name).bind read

def overridesOf? (value : Json) : Option Settings.Overrides := do
  return ⟨← fieldOf? value "max_inline_tags" (nullableOf? integerOf?),
    ← fieldOf? value "domain_inference_sensitivity" (nullableOf? textOf?),
    ← fieldOf? value "exclude_patterns" (listOf? textOf?)⟩

def generateBodyOf? (value : Json) : Option GenerateBody := do
  return ⟨← fieldOf? value "path" textOf?,
    ← fieldOf? value "settings" (nullableOf? overridesOf?)⟩

def tagOf? (value : Json) : Option InlineTag := do
  return ⟨← fieldOf? value "filePath" textOf?, ← fieldOf? value "relativePath" textOf?,
    ← fieldOf? value "currentTag" (nullableOf? textOf?),
    ← fieldOf? value "suggestedTag" textOf?, ← fieldOf? value "reason" textOf?,
    ← fieldOf? value "selected" truthOf?⟩

def writeBodyOf? (value : Json) : Option WriteBody := do
  return ⟨← fieldOf? value "path" textOf?, ← fieldOf? value "claudeMd" textOf?,
    ← fieldOf? value "repoIndex" textOf?, ← fieldOf? value "inlineTags" (listOf? tagOf?)⟩

/-- The body of `status`: the path of a project. -/
def statusBodyOf? (value : Json) : Option String := fieldOf? value "path" textOf?

inductive Operation
  | health
  | generate
  | write
  | status
  deriving DecidableEq, Repr

namespace Operation

def all : List Operation := [health, generate, write, status]

def path : Operation → String
  | health => "/health"
  | generate => "/generate"
  | write => "/write"
  | status => "/status"

def method : Operation → String
  | health => "GET"
  | generate | write | status => "POST"

end Operation

end SourceAtlas.Service
