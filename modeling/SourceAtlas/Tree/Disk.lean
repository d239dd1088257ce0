import SourceAtlas.Tag.Line
import SourceAtlas.Tree.File

/-!
# Writing files

A file is written to a temporary file beside it, which then takes its place, so that readers see
the old content or the new one. What was done before a failure stays done.
-/

namespace SourceAtlas

/-- A file tree with the edits that were made to it, in order. -/
structure Volume where
  tree : Tree
  edits : List Edit := []
  deriving Repr

namespace Volume

def edit (volume : Volume) (edits : List Edit) : Volume :=
  ⟨volume.tree.applyAll edits, volume.edits ++ edits⟩

/-- A run on a tree whose earlier edits nobody asks for. -/
def onTree {α : Type} (run : StateM Volume α) : StateM Tree α := fun tree =>
  let (result, volume) := run { tree := tree }
  (result, volume.tree)

instance : MonadLift (StateM Volume) (StateM Tree) := ⟨onTree⟩

end Volume

/-- A run on a volume; what was done before a failure stays done. -/
abbrev Disk (α : Type) : Type := ExceptT DiskFailure (StateM Volume) α

namespace Disk

def tree : Disk Tree := do return (← get).tree

def make (edits : List Edit) : Disk Unit := modify fun volume => volume.edit edits

/-- Look at the tree. -/
def view {α : Type} (look : Tree → Except DiskFailure α) : Disk α := do
  match look (← tree) with
  | .ok result => return result
  | .error failure => throw failure

/-- Make the edits of an operation. -/
def change (operation : Tree → Except DiskFailure (List Edit)) : Disk Unit := do
  match operation (← tree) with
  | .ok edits => make edits
  | .error failure => throw failure

/-- Make a directory unless one is there; its parent has to be there. -/
def ensureDirectory (shell : Shell) (location : Location) : Disk Unit := do
  match (← tree).makeDirectory shell location with
  | .ok edits => make edits
  | .error (.refused .noEntry path target) => throw (.refused .noEntry path target)
  | .error (.refused errno path target) =>
      if ← view (·.isDirectory shell location) then return ()
      else throw (.refused errno path target)
  | .error failure => throw failure

/-- Make a directory and its parents unless they are there; `fuel` bounds the number of parents. -/
def ensureDirectoriesFuel (shell : Shell) : Nat → Location → Disk Unit
  | 0, location => ensureDirectory shell location
  | fuel + 1, location => do
      match (← tree).makeDirectory shell location with
      | .ok edits => make edits
      | .error (.refused .noEntry path target) =>
          if location.parent = location then throw (.refused .noEntry path target)
          else
            ensureDirectoriesFuel shell fuel location.parent
            ensureDirectory shell location
      -- Whatever the refusal is, a directory that is there is enough.
      | .error (.refused errno path target) =>
          if ← view (·.isDirectory shell location) then return ()
          else throw (.refused errno path target)
      | .error failure => throw failure

def ensureDirectories (shell : Shell) (location : Location) : Disk Unit :=
  ensureDirectoriesFuel shell location.parts.length location

/-- Remove a file unless it is not there. -/
def removeIfPresent (shell : Shell) (location : Location) : Disk Unit := do
  match (← tree).unlink shell location with
  | .ok edits => make edits
  | .error (.refused .noEntry _ _) => return ()
  | .error failure => throw failure

def temporaryEnding : String := ".tmp"

/-- Make a file empty and put a text into it; it stays empty when the text has no encoding. -/
def fill (shell : Shell) (location : Location) (text : Text.Draft) : Disk Unit := do
  match text.encode with
  | .ok bytes => change (·.writeBytes shell location bytes)
  | .error cause => do
      change (·.writeBytes shell location [])
      throw (.encoding (.unencodable cause))

/-- Put a text into the temporary file and move it into place; when that fails, remove it. -/
def writeVia (shell : Shell) (temporary target : Location) (text : Text.Draft) : Disk Unit := do
  try
    fill shell temporary text
    change (·.rename shell temporary target)
  catch failure =>
    -- A failure of the removal takes the place of the one that led to it.
    removeIfPresent shell temporary
    throw failure

/-- Write a text to a file; its directory is made if it is not there. -/
def writeText (shell : Shell) (target : Location) (text : Text.Draft) : Disk Unit := do
  ensureDirectories shell target.parent
  match target.appending? temporaryEnding with
  | none => throw (.emptyName target.text)
  | some temporary => writeVia shell temporary target text

/-- Put a tag on top of a file in place of the first one in it. -/
def writeTag (shell : Shell) (target : Location) (tag : Text.Draft) : Disk Unit := do
  let text ← view (·.readExact shell target)
  writeText shell target (Tag.retag tag text)

end Disk

end SourceAtlas
