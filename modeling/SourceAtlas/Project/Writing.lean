import SourceAtlas.Log
import SourceAtlas.Project.Root
import SourceAtlas.Tag.Proposal
import SourceAtlas.Tree.Disk

/-!
# Writing documents and tags

The two documents and every selected tag are written independently of each other: a failure is
noted and the rest goes on. A tag is written only to a file whose real place is in the project.
-/

namespace SourceAtlas

/-- What came of one proposed tag. -/
inductive TagOutcome
  /-- The tag is not to be written. -/
  | unselected
  /-- The file is outside the project. -/
  | refused
  | failed (cause : DiskFailure)
  | written
  deriving DecidableEq, Repr

structure WriteReport where
  root : Location
  /-- What kept the overview from being written. -/
  overview : Option DiskFailure
  /-- What kept the index from being written. -/
  index : Option DiskFailure
  /-- The tags that were handled, in order. -/
  tags : List (InlineTag × TagOutcome)
  /-- What broke the writing off. -/
  stopped : Option DiskFailure
  deriving Repr

namespace WriteReport

def overviewWritten (report : WriteReport) : Bool := report.overview.isNone

def indexWritten (report : WriteReport) : Bool := report.index.isNone

def tagsWritten (report : WriteReport) : Nat :=
  (report.tags.filter fun (_, outcome) => outcome == .written).length

/-- A truth value in records. -/
def truthText (b : Bool) : String := if b then "True" else "False"

/-- The record of a document that was not written. -/
def pageRecord? (page : Page) (failure : Option DiskFailure) : Option Log.Record :=
  failure.map fun _ => ⟨.error, .engine, "Failed to write " ++ Project.pageName page⟩

/-- The record of a tag that was not written. -/
def tagRecord? (root : Location) (tag : InlineTag) : TagOutcome → Option Log.Record
  | .unselected | .written => none
  | .refused =>
      some ⟨.warning, .engine,
        "Refusing to tag " ++ (Location.ofText tag.location).text ++ " outside "
          ++ root.text⟩
  | .failed cause =>
      some ⟨.warning, .engine,
        "Failed to write inline tag to " ++ (Location.ofText tag.location).text ++ ": "
          ++ cause.message⟩

def endRecord (report : WriteReport) : Log.Record :=
  ⟨.info, .engine,
    "Atlas written (overview=" ++ truthText report.overviewWritten ++ ", index="
      ++ truthText report.indexWritten ++ ", tags=" ++ toString report.tagsWritten ++ ")"⟩

def records (report : WriteReport) : List Log.Record :=
  (pageRecord? .overview report.overview).toList
  ++ (pageRecord? .index report.index).toList
  ++ report.tags.filterMap (fun (tag, outcome) => tagRecord? report.root tag outcome)
  ++ if report.stopped.isNone then [report.endRecord] else []

end WriteReport

namespace Project

/-- Run on a tree; a failure that concerns one file only is returned, any other one is passed on. -/
def attempt (run : Disk Unit) : Disk (Option DiskFailure) := do
  try
    run
    pure none
  catch failure =>
    if failure.isLocal then pure (some failure) else throw failure

/-- The real place of a location is in the project. -/
def isWithin (tree : Tree) (shell : Shell) (root : Location) (location : Location) :
    Except DiskFailure Bool :=
  match tree.resolve shell location with
  | .ok place => .ok (place.root == root.root && (Tree.below? root.parts place.parts).isSome)
  -- A path that no file can have is refused like one outside.
  | .error .nulByte => .ok false
  | .error failure => .error failure

def writePage (shell : Shell) (root : Location) (page : Page) (text : Text.Draft) :
    Disk (Option DiskFailure) :=
  attempt (Disk.writeText shell (pageLocation root page) text)

/-- Write a tag if it is selected and its file is in the project. -/
def writeTag (shell : Shell) (root : Location) (tag : InlineTag) : Disk TagOutcome := do
  if !tag.selected then return .unselected
  let target := Location.ofText tag.location
  if !(← Disk.view (isWithin · shell root target)) then return .refused
  match ← attempt (Disk.writeTag shell target tag.suggested) with
  | some failure => return .failed failure
  | none => return .written

/-- Write tags in order until one of them breaks the writing off. -/
def writeTags (shell : Shell) (root : Location) :
    List InlineTag → StateM Volume (List (InlineTag × TagOutcome) × Option DiskFailure)
  | [] => return ([], none)
  | tag :: rest => do
      match ← (writeTag shell root tag).run with
      | .error failure => return ([], some failure)
      | .ok outcome =>
          let (outcomes, stopped) ← writeTags shell root rest
          return ((tag, outcome) :: outcomes, stopped)

/-- The failure of a run that gives the failure of a document. -/
def pageFailure : Except DiskFailure (Option DiskFailure) → Option DiskFailure
  | .ok failure => failure
  | .error failure => some failure

def writeIn (shell : Shell) (root : Location) (overview index : Text.Draft)
    (tags : List InlineTag) : StateM Volume WriteReport := do
  let overviewFailure ← (writePage shell root .overview overview).run
  let indexFailure ← (writePage shell root .index index).run
  let (outcomes, stopped) ← writeTags shell root tags
  return ⟨root, pageFailure overviewFailure, pageFailure indexFailure, outcomes, stopped⟩

def write (shell : Shell) (path : String) (overview index : Text.Draft) (tags : List InlineTag) :
    StateM Tree (Except Failure WriteReport) := do
  match root (← get) shell path with
  | .error failure => return .error failure
  | .ok root => return .ok (← writeIn shell root overview index tags)

end Project

end SourceAtlas
