import SourceAtlas.Service.Answer
import SourceAtlas.Service.Check
import SourceAtlas.Service.Payload
import SourceAtlas.Service.Route

/-!
# The framework of the service

Requests are led by their path and method, and bodies are read as JSON and checked. The answers of
the framework itself tell what is wrong with a request.
-/

namespace SourceAtlas.Service

namespace Answer

def stepJson : PlaceStep → Json
  | .name name => .string name
  | .index index => .nat index

def faultJson (f : Fault) : Json :=
  .object [("type", .string f.kind.name), ("loc", .array (f.place.map stepJson))]

def ofFaults (faults : List Fault) : Answer := ⟨422, .json (.array (faults.map faultJson))⟩

end Answer

def bodyFault (kind : FaultKind) (steps : List PlaceStep) : Answer :=
  .ofFaults [⟨kind, .name "body" :: steps⟩]

/-- The framework as the service has it. -/
def Framework.standard : Framework where
  route method reference :=
    match Route.ofReference method reference with
    | .unknown => .error (.detail 404 "Not Found")
    | .wrongMethod => .error (.detail 405 "Method Not Allowed")
    | .found operation => .ok operation
  receive shape body :=
    match Payload.ofText body with
    | .absent => .error (bodyFault .missing [])
    | .malformed position => .error (bodyFault .malformedJson [.index position])
    | .unreadable => .error (.detail 400 "There was an error parsing the body")
    | .given value => (Checked.within (.name "body") (shape.check value)).mapError .ofFaults

end SourceAtlas.Service
