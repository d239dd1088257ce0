import SourceAtlas.Command.Run
import SourceAtlas.Json.Reader
import SourceAtlas.Json.Writer
import SourceAtlas.Tree.Snapshot
import SourceAtlas.Yaml.Document

/-!
# The program

The command line is given by the words of the call. The files are given by the first line of the
input, an object with the fields `workingDirectory`, `home`, `time` and `tree`, a snapshot of the
files. The output of the command is written to the output; when files have changed, the last line
of the output holds the changes. Git is not asked.
-/

namespace SourceAtlas

def textField (value : Json) (name : String) : String :=
  match value.field? name with
  | some (.string text) => text
  | _ => ""

/-- What a command finds around it, as the input tells it. -/
def terminalOf (value : Json) : Command.Terminal where
  shell := ⟨Location.partsOf (textField value "workingDirectory"),
    Location.partsOf (textField value "home")⟩
  git := {}
  stamp := textField value "time"
  now := textField value "time"
  elapsed := 0

/-- The files, as the input tells them. -/
def treeOf (value : Json) : Tree := .ofJson ((value.field? "tree").getD .null)

def exitCode : Command.Outcome → UInt32
  | .exited code => code.toUInt32
  | .failed _ => 1

def lastError : Command.Outcome → String
  | .failed cause => cause.message ++ "\n"
  | _ => ""

/-- The last line of the output. -/
def changesLine (before after : Tree) : String :=
  if before = after then "" else Json.render (before.changesJson after) ++ "\n"

/-- Run a command line on the files that the input tells. -/
def runOnInput (words : List String) (input : Json) : IO UInt32 := do
  let tree := treeOf input
  let (outcome, console) := Command.run (terminalOf input) words tree
  (← IO.getStderr).putStr (console.errors ++ lastError outcome)
  (← IO.getStdout).putStr (console.output ++ changesLine tree console.tree)
  return exitCode outcome

end SourceAtlas

def main (words : List String) : IO UInt32 := do
  match SourceAtlas.Command.readCommandLine words with
  | .error _ => SourceAtlas.runOnInput words .null
  | .ok _ =>
      match SourceAtlas.Json.read (← (← IO.getStdin).getLine).toList with
      | .ok input => SourceAtlas.runOnInput words input
      | .error _ =>
          (← IO.getStderr).putStr "the first line of the input is no snapshot\n"
          return 2
