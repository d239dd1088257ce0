import SourceAtlas.Project.Record
import SourceAtlas.Service.Operation

/-!
# Answers of the service

A framework leads requests to operations and their bodies into shape. Each operation runs on the
project at the path in its body and answers with a record. A path that leads to no project, and
settings that make no sense, are answered with their messages; of any other failure the answer says
nothing.
-/

namespace SourceAtlas.Service

structure Request where
  method : String
  reference : String
  /-- The text of the body; without a body it is empty. -/
  body : List Char

inductive Content
  | json (value : Json)
  | text (text : String)
  | none

structure Answer where
  status : Nat
  content : Content

namespace Answer

def detail (status : Nat) (message : String) : Answer :=
  ⟨status, .json (.object [("detail", .string message)])⟩

/-- The answer to a request for an operation that broke down. -/
def breakdown : Answer := ⟨500, .text "Internal Server Error"⟩

def ofFailure (cause : Failure) : Answer :=
  match cause.kind with
  | .absent => detail 404 cause.message
  | .invalid => detail 400 cause.message
  | .breakdown => breakdown

def record (value : Json) : Answer := ⟨200, .json value⟩

end Answer

/-- What the service is built on. Where it does not lead to an operation, or the body has not the
shape that is expected, it answers itself. -/
structure Framework where
  /-- The operation that a method and a reference lead to. -/
  route : (method reference : String) → Except Answer Operation
  /-- The value of a shape that the text of a body stands for. -/
  receive : Shape → List Char → Except Answer Json

/-- What the service finds around it. -/
structure Surroundings where
  framework : Framework
  shell : Shell
  git : Git.Replies
  /-- The text of the present moment. -/
  now : String
  /-- The milliseconds that a scan takes. -/
  elapsed : Nat

/-- Go on with what a body says. -/
def withBody {α : Type} (around : Surroundings) (shape : Shape) (read : Json → Option α)
    (body : List Char) (next : α → StateM Tree Answer) : StateM Tree Answer :=
  match around.framework.receive shape body with
  | .error answer => return answer
  | .ok value =>
      match read value with
      | some told => next told
      | none => return .breakdown

/-- The answer to the outcome of an operation. -/
def answerOf {α : Type} (toJson : α → Json) : Except Failure α → Answer
  | .ok result => .record (toJson result)
  | .error cause => .ofFailure cause

def generate [Yaml.Reader] (around : Surroundings) (body : GenerateBody) (tree : Tree) :
    Except Failure Generation := do
  let settings ←
    Project.settingsWith tree around.shell body.path (body.overrides.getD {})
  Project.generate tree around.shell around.git.listing body.path (some settings)

def generationJson (around : Surroundings) (generation : Generation) : Json :=
  .object (generation.fields Domain.toJson around.elapsed)

def write (around : Surroundings) (body : WriteBody) : StateM Tree Answer := do
  match ← Project.write around.shell body.path body.overview body.index body.tags with
  | .error cause => return .ofFailure cause
  | .ok report =>
      match report.stopped with
      | some cause => return .ofFailure (.disk cause)
      | none => return .record report.toJson

def runOperation [Yaml.Reader] (around : Surroundings) (body : List Char) :
    Operation → StateM Tree Answer
  | .health => return .record (.object [("status", .string "ok")])
  | .generate =>
      withBody around .generateBody generateBodyOf? body fun told => do
        return answerOf (generationJson around) (generate around told (← get))
  | .write => withBody around .writeBody writeBodyOf? body (write around)
  | .status =>
      withBody around .statusBody statusBodyOf? body fun path => do
        return answerOf (Status.toJson around.now)
          (Project.status (← get) around.shell around.git path)

/-- The answer to a request for the head of an answer only. -/
def forMethod (method : String) (answer : Answer) : Answer :=
  if method = "HEAD" then { answer with content := .none } else answer

def answer [Yaml.Reader] (around : Surroundings) (request : Request) : StateM Tree Answer := do
  let answer ← match around.framework.route request.method request.reference with
    | .error answer => pure answer
    | .ok operation => runOperation around request.body operation
  return forMethod request.method answer
end SourceAtlas.Service
