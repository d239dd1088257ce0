import SourceAtlas.Git
import SourceAtlas.Log
import SourceAtlas.Project.Failure
import SourceAtlas.Tree.Disk

/-!
# The console of a command

A command writes lines to its output, records to its error output and to a log file, and changes
files. It ends normally, with an exit code, or with a failure that nobody handles.
-/

namespace SourceAtlas.Command

/-- What a command finds around it. -/
structure Terminal where
  shell : Shell
  git : Git.Replies
  /-- The time that is written in front of records in a log file. -/
  stamp : String
  /-- The present moment in a status. -/
  now : String
  /-- The milliseconds that a scan takes. -/
  elapsed : Nat

/-- What a command has done. -/
structure Console where
  tree : Tree
  output : String := ""
  errors : String := ""
  /-- The addresses that were served. -/
  served : List (String × Int) := []

/-- How a command ends before its last step. -/
inductive Ending
  /-- With an exit code and a last text for the error output. -/
  | exit (code : Nat) (text : String)
  | failed (cause : Failure)
  deriving DecidableEq, Repr

/-- A run of a command; what was done before it ended stays done. -/
abbrev Session (α : Type) : Type := ExceptT Ending (StateM Console) α

structure Recorder where
  verbose : Bool
  file : Option Location

namespace Session

def printLine (line : String) : Session Unit :=
  modify fun console => { console with output := console.output ++ line ++ "\n" }

def printError (text : String) : Session Unit :=
  modify fun console => { console with errors := console.errors ++ text }

def onDisk {α : Type} (run : Disk α) : Session α := do
  let (outcome, volume) := run.run { tree := (← get).tree }
  modify fun console => { console with tree := volume.tree }
  match outcome with
  | .ok result => return result
  | .error cause => throw (.failed (.disk cause))

/-- Give the result of an operation, or end with its failure. -/
def orFail {α : Type} (outcome : Except Failure α) : Session α := do
  match outcome with
  | .ok result => return result
  | .error cause => throw (.failed cause)

end Session

namespace Recorder

/-- Make the log file ready: its directory is made, and it is created if it is not there. -/
def start (terminal : Terminal) (verbose : Bool) (file : Option Location) : Session Recorder := do
  match file with
  | none => return ⟨verbose, none⟩
  | some file =>
      Session.onDisk (Disk.ensureDirectories terminal.shell file.parent)
      -- The directory is made by the path as it is given, the file is opened by its absolute path.
      let file := Tree.absolute terminal.shell file
      Session.onDisk (Disk.change (·.appendBytes terminal.shell file []))
      return ⟨verbose, some file⟩

/-- Write records to the error output and to the log file. -/
def write (terminal : Terminal) (recorder : Recorder) (records : List Log.Record) :
    Session Unit := do
  let shown := records.filter (Log.Record.isShown recorder.verbose)
  Session.printError (String.join (shown.map fun record => record.consoleLine ++ "\n"))
  match recorder.file with
  | none => return ()
  | some file =>
      let lines := String.join (shown.map fun record => record.fileLine terminal.stamp ++ "\n")
      Session.onDisk
        (Disk.change (·.appendBytes terminal.shell file (Text.Utf8.encode lines.toList)))

end Recorder

end SourceAtlas.Command
