import SourceAtlas.Command.Console
import SourceAtlas.Command.Invocation
import SourceAtlas.Project.Generation
import SourceAtlas.Project.Status
import SourceAtlas.Project.Writing

/-!
# Running commands

What the commands do and print. A path that leads to no project and settings that make no sense end
the command with a message; any other failure is not handled.
-/

namespace SourceAtlas.Command

def summaryLines (elapsed : Nat) (scan : Scan) : List String :=
  ["Scanned " ++ toString scan.files.length ++ " files (" ++ Text.thousands scan.totalLines
      ++ " lines) in " ++ toString elapsed ++ " ms",
    "Dependencies: " ++ toString scan.dependencies.length,
    "Domains (" ++ toString scan.domains.length ++ "):"]
  ++ scan.domains.map (fun domain =>
      "  - " ++ domain.name ++ ": " ++ toString domain.files.length ++ " files"
        ++ (match Page.nonEmpty? domain.channels with
            | some channels => " [" ++ channels ++ "]"
            | none => ""))
  ++ (if scan.tags.isEmpty then [] else ["Inline tag candidates:"])
  ++ scan.tags.map (fun tag =>
      "  [" ++ (if tag.selected then "x" else " ") ++ "] " ++ tag.path ++ " (" ++ tag.reason ++ ")")

def yesNo (b : Bool) : String := if b then "yes" else "no"

def writtenLine (report : WriteReport) : String :=
  "Wrote overview: " ++ yesNo report.overviewWritten ++ ", repo index: "
    ++ yesNo report.indexWritten ++ ", inline tags: " ++ toString report.tagsWritten

/-- How `generate` ends when it does not get through to its result. -/
def generateEnding (cause : Failure) : Ending :=
  match cause.kind with
  | .absent => .exit 1 (cause.message ++ "\n")
  | .invalid => .exit 1 (Log.programName ++ " generate failed: " ++ cause.message ++ "\n")
  | .breakdown => .failed cause

def statusEnding (cause : Failure) : Ending :=
  match cause.kind with
  | .absent => .exit 1 (cause.message ++ "\n")
  | _ => .failed cause

def orEnd {α : Type} (ending : Failure → Ending) (outcome : Except Failure α) : Session α := do
  match outcome with
  | .ok result => return result
  | .error cause => throw (ending cause)

/-- The settings that options override. -/
def GenerateOptions.overrides (options : GenerateOptions) : Settings.Overrides :=
  ⟨options.maxTags, options.sensitivity, options.excludes⟩

/-- Scan a project and report on it. -/
def generateFrom [Yaml.Reader] (terminal : Terminal) (recorder : Recorder)
    (options : GenerateOptions) : Session Generation := do
  let tree := (← get).tree
  let settings ←
    orEnd generateEnding
      (Project.settingsWith tree terminal.shell options.path options.overrides)
  let root ← orEnd generateEnding (Project.root tree terminal.shell options.path)
  recorder.write terminal [Scan.startRecord root]
  let generation :=
    Generation.ofTree (← get).tree terminal.shell terminal.git.listing settings root
  recorder.write terminal
    (generation.scan.events.map ScanEvent.toRecord ++ [generation.scan.endRecord terminal.elapsed])
  return generation

/-- Write generated documents, and the tags unless they are not wanted. -/
def writeFrom (terminal : Terminal) (recorder : Recorder) (options : GenerateOptions)
    (generation : Generation) : Session Unit := do
  let tags := if options.noTags then [] else generation.scan.tags
  let (outcome, tree) :=
    Project.write terminal.shell options.path generation.overview generation.index tags
      |>.run (← get).tree
  -- What was written in front of a failure stays written.
  modify fun console => { console with tree := tree }
  let report ← Session.orFail outcome
  recorder.write terminal report.records
  match report.stopped with
  | some cause => throw (.failed (.disk cause))
  | none =>
      Session.printLine (writtenLine report)
      if !(report.overviewWritten && report.indexWritten) then
        throw (.exit 1
          "Some atlas documents could not be written. Run with --verbose for details.\n")

def runGenerate [Yaml.Reader] (terminal : Terminal) (recorder : Recorder)
    (options : GenerateOptions) : Session Unit := do
  let generation ← generateFrom terminal recorder options
  (summaryLines terminal.elapsed generation.scan).forM Session.printLine
  if options.write then writeFrom terminal recorder options generation
  else
    Session.printLine "Dry run: nothing written. Re-run with --write to persist the atlas."

/-- The text of a moment on the console, given the text of the present moment. -/
def momentText (now : String) : Moment → String
  | .recently => now
  | .at timestamp => timestamp.shortText

def statusLines (now : String) (status : Status) : List String :=
  if status.hasAtlas then
    ["Overview:    " ++ status.overview.getD "(missing)",
     "Repo index:  " ++ status.index.getD "(missing)"]
    ++ (status.updated.map fun moment => "Updated:     " ++ momentText now moment).toList
    ++ ["Inline tags: " ++ toString status.tags.count]
  else ["No atlas found. Run `repoatlas generate --write` to create one."]

def runStatus (terminal : Terminal) (recorder : Recorder) (path : String) : Session Unit := do
  let status ←
    orEnd statusEnding (Project.status (← get).tree terminal.shell terminal.git path)
  recorder.write terminal status.tags.records
  (statusLines terminal.now status).forM Session.printLine

def runInvocation [Yaml.Reader] (terminal : Terminal) (invocation : Invocation) : Session Unit := do
  let recorder ← Recorder.start terminal invocation.verbose invocation.logFile
  match invocation.request with
  | .generate options => runGenerate terminal recorder options
  | .status path => runStatus terminal recorder path
  | .serve host port =>
      modify fun console => { console with served := console.served ++ [(host, port)] }

inductive Outcome
  | exited (code : Nat)
  | failed (cause : Failure)
  deriving DecidableEq, Repr

def finish (console : Console) : Except Ending Unit → Outcome × Console
  | .ok () => (.exited 0, console)
  | .error (.exit code text) => (.exited code, { console with errors := console.errors ++ text })
  | .error (.failed cause) => (.failed cause, console)

/-- Run the program on a command line. -/
def run [Yaml.Reader] (terminal : Terminal) (words : List String) (tree : Tree) :
    Outcome × Console :=
  match readCommandLine words with
  | .error stop => (.exited stop.code, ⟨tree, stop.output, stop.errors, []⟩)
  | .ok invocation =>
      let (ending, console) := (runInvocation terminal invocation).run { tree := tree }
      finish console ending

end SourceAtlas.Command
