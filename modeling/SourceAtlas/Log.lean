/-!
# Log records

Each part of the program reports what it does in records. The console and a log file show the same
records, each in its own layout.
-/

namespace SourceAtlas.Log

def programName : String := "repoatlas"

inductive Level
  | debug
  | info
  | warning
  | error
  deriving DecidableEq, Repr, Inhabited

def Level.name : Level → String
  | debug => "DEBUG"
  | info => "INFO"
  | warning => "WARNING"
  | error => "ERROR"

/-- The part of the program that a record comes from. -/
inductive Part
  | engine
  | scanner
  | progress
  deriving DecidableEq, Repr, Inhabited

def Part.name : Part → String
  | engine => "engine"
  | scanner => "scanner"
  | progress => "progress"

structure Record where
  level : Level
  part : Part
  text : String
  deriving DecidableEq, Repr, Inhabited

/-- The full name of a part, or of the whole program. -/
def fullName (part : Option String) : String :=
  match part with
  | none => programName
  | some part => if part.isEmpty then programName else programName ++ "." ++ part

/-- Debug records are shown on demand, all others always. -/
def Record.isShown (verbose : Bool) (record : Record) : Bool := verbose || record.level != .debug

def Record.consoleLine (record : Record) : String :=
  "[" ++ programName ++ "] " ++ record.level.name ++ " " ++ record.text

/-- A record in a log file, behind the time at which it was written. -/
def Record.fileLine (stamp : String) (record : Record) : String :=
  stamp ++ " " ++ record.level.name ++ " " ++ fullName record.part.name ++ ": " ++ record.text

end SourceAtlas.Log
