import SourceAtlas.Number.Binary64
import SourceAtlas.Text.Draft

/-!
# JSON values

Numbers written without fraction and exponent are integers of any size. A string whose escapes
leave a surrogate without its partner is no text; it is kept apart.
-/

namespace SourceAtlas

/-- A JSON value. The names of an object are different from each other. -/
inductive Json
  | null
  | bool (value : Bool)
  | int (value : Int)
  | float (value : Number.Binary64)
  | string (text : String)
  /-- A string with an unpaired surrogate. -/
  | brokenString (draft : Text.Draft)
  | array (items : List Json)
  | object (fields : List (String × Json))
  deriving Repr, Inhabited

namespace Json

/-- Set a field: an earlier value of the name is replaced at its place. -/
def setField (name : String) (value : Json) : List (String × Json) → List (String × Json)
  | [] => [(name, value)]
  | field :: rest =>
      if field.1 = name then (name, value) :: rest else field :: setField name value rest

def field? (name : String) : Json → Option Json
  | object fields => fields.lookup name
  | _ => none

def ofDraft (draft : Text.Draft) : Json :=
  match draft.toString? with
  | some text => string text
  | none => brokenString draft

/-- A string, or null for nothing. -/
def ofOption : Option String → Json
  | some text => string text
  | none => null

def strings (texts : List String) : Json := array (texts.map string)

def nat (n : Nat) : Json := int n

end Json

end SourceAtlas
