import SourceAtlas.Log

/-!
# Progress of a scan

A scan goes through four phases. Each event tells the phase, how much of it is done, and a message
for the reader. Between the events the parts of the program report records.
-/

namespace SourceAtlas

inductive Phase
  | enumerating
  | analyzing
  | inferring
  | generating
  deriving DecidableEq, Repr, Inhabited

def Phase.name : Phase → String
  | enumerating => "enumerating"
  | analyzing => "analyzing"
  | inferring => "inferring"
  | generating => "generating"

def Phase.rank : Phase → Nat
  | enumerating => 0
  | analyzing => 1
  | inferring => 2
  | generating => 3

structure Progress where
  phase : Phase
  current : Nat
  total : Nat
  message : String
  deriving DecidableEq, Repr, Inhabited

def Progress.record (progress : Progress) : Log.Record :=
  ⟨.debug, .progress,
    "[" ++ progress.phase.name ++ " " ++ toString progress.current ++ "/"
      ++ toString progress.total ++ "] " ++ progress.message⟩

/-- What happens in a scan, as seen from outside. -/
inductive ScanEvent
  | progress (progress : Progress)
  | record (record : Log.Record)
  deriving DecidableEq, Repr

namespace ScanEvent

def progress? : ScanEvent → Option Progress
  | progress p => some p
  | record _ => none

/-- An event as a record; progress is reported too. -/
def toRecord : ScanEvent → Log.Record
  | progress p => p.record
  | record r => r

end ScanEvent

end SourceAtlas
