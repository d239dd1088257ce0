import SourceAtlas.Json.Reader

/-!
# Request bodies

What arrives with a request is nothing, JSON, or a text that is no JSON.
-/

namespace SourceAtlas.Service

/-- A body as it arrives. -/
inductive Payload
  | absent
  /-- The body is no JSON from a position on. -/
  | malformed (position : Nat)
  /-- The body is JSON of a kind that is not taken. -/
  | unreadable
  | given (value : Json)
  deriving Repr

namespace Payload

/-- The mark of byte order that a body may start with. -/
def byteOrderMark : Char := '\uFEFF'

def withoutMark : List Char → List Char
  | c :: rest => if c = byteOrderMark then rest else c :: rest
  | [] => []

def ofText (text : List Char) : Payload :=
  if text.isEmpty then .absent
  else
    match Json.read (withoutMark text) with
    | .ok value => .given value
    | .error ⟨.hugeInteger, _⟩ | .error ⟨.tooDeep, _⟩ => .unreadable
    | .error ⟨_, position⟩ => .malformed position

end Payload

end SourceAtlas.Service
