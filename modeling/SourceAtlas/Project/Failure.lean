import SourceAtlas.Settings.File
import SourceAtlas.Tree.Failure

/-!
# Failures of the operations on projects

What keeps an operation from being done, its wording, and how it concerns the one who asked for it.
-/

namespace SourceAtlas

/-- How a failure concerns the one who asked. -/
inductive FailureKind
  /-- What was asked for is not there. -/
  | absent
  /-- What was asked for makes no sense. -/
  | invalid
  /-- The operation broke down. -/
  | breakdown
  deriving DecidableEq, Repr

/-- Why an operation on a project is not done. -/
inductive Failure
  /-- Nothing is at the path of the project. -/
  | noProject (path : String)
  /-- The path of the project leads to something else than a directory. -/
  | notDirectory (path : String)
  | disk (cause : DiskFailure)
  | settings (cause : Settings.LoadError)
  | overrides (cause : SettingsError)
  /-- A document was written in a year that dates cannot show. -/
  | year (number : Int)
  /-- The search for tags takes too long. -/
  | timedOut
  deriving DecidableEq, Repr

def Settings.LoadError.message : Settings.LoadError → String
  | refused cause => cause.message
  | encoding cause => cause.message
  | badScalar cause => cause.message?.getD ""
  | tooDeep => "maximum recursion depth exceeded"
  | longSensitivity => Number.tooLongToShow
  | hugeThreshold => "int too large to convert to float"

/-- How a failure to load settings concerns the one who asked. -/
def Settings.LoadError.kind : Settings.LoadError → FailureKind
  | refused _ | encoding _ | longSensitivity => .invalid
  | badScalar cause => if cause.message?.isSome then .invalid else .breakdown
  | tooDeep | hugeThreshold => .breakdown

def DiskFailure.kind : DiskFailure → FailureKind
  | refused .noEntry _ _ | refused .notDirectory _ _ => .absent
  | nulByte | emptyName _ | encoding _ => .invalid
  | _ => .breakdown

namespace Failure

def message : Failure → String
  | noProject path => "Project path not found: " ++ path
  | notDirectory path => "Project path is not a directory: " ++ path
  | disk cause => cause.message
  | settings cause => cause.message
  | overrides cause => cause.message
  | year number => "year " ++ toString number ++ " is out of range"
  | timedOut => "git grep timed out"

def kind : Failure → FailureKind
  | noProject _ | notDirectory _ => .absent
  | disk cause => cause.kind
  | settings cause => cause.kind
  | overrides _ | year _ => .invalid
  | timedOut => .breakdown

end Failure

end SourceAtlas
