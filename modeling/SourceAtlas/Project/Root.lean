import SourceAtlas.Document.Page
import SourceAtlas.Project.Failure
import SourceAtlas.Tree.File

/-!
# The root of a project

A project is named by a path. Its root is the directory that the path leads to, with all links
resolved. The root holds the documents and, if there is one, the settings file.
-/

namespace SourceAtlas.Project

/-- A failure of the disk as a failure of the operation. -/
def onDisk {α : Type} (outcome : Except DiskFailure α) : Except Failure α :=
  outcome.mapError .disk

def root (tree : Tree) (shell : Shell) (path : String) : Except Failure Location := do
  let location ← onDisk (Tree.expandHome shell (.ofText path))
  let root ← onDisk (tree.resolve shell location)
  if !(← onDisk (tree.isPresent shell root)) then throw (.noProject path)
  if !(← onDisk (tree.isDirectory shell root)) then throw (.notDirectory path)
  return root

/-- The settings file for a location: the one in a directory, or the file itself. -/
def settingsFile (tree : Tree) (shell : Shell) (location : Location) :
    Except DiskFailure Location := do
  let location ← Tree.expandHome shell location
  let inside ← tree.isDirectory shell location
  let file := if inside then location.child Settings.fileName else location
  tree.resolve shell file

/-- The settings for a location; without a settings file they are the standard ones. -/
def loadSettings [Yaml.Reader] (tree : Tree) (shell : Shell) (location : Location) :
    Except Failure Settings := do
  let file ← onDisk (settingsFile tree shell location)
  if !(← onDisk (tree.isPresent shell file)) then return .standard
  let bytes ← onDisk (tree.readBytes shell file)
  (Settings.ofBytes file.name bytes).mapError .settings

def settings [Yaml.Reader] (tree : Tree) (shell : Shell) (root : Location) :
    Except Failure Settings :=
  loadSettings tree shell root

/-- The settings of the project at a path with some of them overridden. -/
def settingsWith [Yaml.Reader] (tree : Tree) (shell : Shell) (path : String)
    (overrides : Settings.Overrides) : Except Failure Settings := do
  let loaded ← settings tree shell (← root tree shell path)
  (loaded.withOverrides overrides).mapError .overrides

def pageLocation (root : Location) : Page → Location
  | .overview => root.child "CLAUDE.md"
  | .index => root.child Page.indexPath

def pageName : Page → String
  | .overview => "CLAUDE.md"
  | .index => "repo-index.md"

def nameOf (root : Location) : String := root.parts.getLast?.getD "Repository"

end SourceAtlas.Project
