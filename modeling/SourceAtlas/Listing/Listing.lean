import SourceAtlas.Git
import SourceAtlas.Listing.Filter
import SourceAtlas.Log
import SourceAtlas.Text.Order
import SourceAtlas.Tree.File

/-!
# The listing of a project

Git is asked first for the files of a project; when it gives no usable answer, the directories are
walked, except those that the system does not list. Either way the same filter decides which paths
are listed, and the listing is in ascending order without repetitions.
-/

namespace SourceAtlas

/-- Why git is of no use for a listing. -/
inductive GitTrouble
  | failed (cause : Git.Failure)
  /-- The answer is longer than a listing may be. -/
  | tooLong
  deriving DecidableEq, Repr

def GitTrouble.message : GitTrouble → String
  | failed cause => cause.message .listing
  | tooLong => "git ls-files output exceeded the listing buffer"

structure Listing where
  paths : List String
  /-- Why the paths do not come from git. -/
  trouble : Option GitTrouble
  /-- The directories that the system does not list. -/
  skipped : List (Location × DiskFailure) := []
  deriving DecidableEq, Repr

/-- What a walk comes by. -/
structure Walk where
  paths : List String := []
  /-- The directories that the system does not list. -/
  skipped : List (Location × DiskFailure) := []
  deriving DecidableEq, Repr

namespace Listing

/-- An answer of git may have this many characters. -/
def maxAnswer : Nat := 10485760

def gitPaths (reply : Git.Reply) : Except GitTrouble (List String) :=
  match reply with
  | .error cause => .error (.failed cause)
  | .ok output =>
      if maxAnswer < output.length then .error .tooLong
      else .ok ((Git.pathsOf output).map Path.toSlashes)

def isEntered (name : String) : Bool := !excludedNames.contains name && !isHidden name

/-- The entry is listed by the walk: a file, or a link that does not lead to a directory. -/
def isLeaf (tree : Tree) (shell : Shell) (location : Location) : Entry → Bool
  | .file _ _ => true
  | .directory => false
  | .link _ =>
      match tree.isDirectory shell location with
      | .ok leads => !leads
      | .error _ => true

/-- The names of the leaves among the entries of a directory. -/
def leafNames (tree : Tree) (shell : Shell) (directory : Location)
    (entries : List (String × Entry)) : List String :=
  (entries.filter fun (name, entry) => isLeaf tree shell (directory.below [name]) entry).map (·.1)

/-- The names of the directories that the walk enters from a directory, in order. -/
def enteredNames (entries : List (String × Entry)) : List String :=
  Text.sortDistinct
    ((entries.filter fun (name, entry) => entry == .directory && isEntered name).map (·.1))

/-- Walk on from the directory at some names below the root. A directory that the system does not
list is left out with everything in it. -/
def walkFrom (tree : Tree) (shell : Shell) (root : Location) : Nat → Route → Walk
  | 0, _ => {}
  | depth + 1, names =>
      let directory := root.below names
      match tree.listDirectory shell directory with
      | .error failure => { skipped := [(directory, failure)] }
      | .ok entries =>
          let inner := (enteredNames entries).map fun name =>
            walkFrom tree shell root depth (names ++ [name])
          { paths := (leafNames tree shell directory entries).map
                (fun name => "/".intercalate (names ++ [name]))
              ++ inner.flatMap Walk.paths
            skipped := inner.flatMap Walk.skipped }

/-- The walk through a project. A directory that lies deeper than a path may have bytes is not
listed. -/
def walk (tree : Tree) (shell : Shell) (root : Location) : Walk :=
  walkFrom tree shell root Tree.maxPathBytes []

/-- The paths that the filter lets through, in order. -/
def arrange (patterns paths : List String) : List String :=
  Text.sortDistinct (paths.filter (accepts patterns))

def ofTree (tree : Tree) (shell : Shell) (reply : Git.Reply) (patterns : List String)
    (root : Location) : Listing :=
  match gitPaths reply with
  | .ok paths => { paths := arrange patterns paths, trouble := none }
  | .error trouble =>
      let walked := walk tree shell root
      ⟨arrange patterns walked.paths, some trouble, walked.skipped⟩

def method (listing : Listing) : String := if listing.trouble.isNone then "git" else "walk"

def skipRecord (skipped : Location × DiskFailure) : Log.Record :=
  ⟨.debug, .scanner,
    "Skipping unreadable directory " ++ skipped.1.text ++ ": " ++ skipped.2.message⟩

def records (listing : Listing) : List Log.Record :=
  (listing.trouble.toList.map fun trouble =>
    ⟨.debug, .scanner, "File listing via git unavailable: " ++ trouble.message⟩)
  ++ listing.skipped.map skipRecord
  ++ [⟨.debug, .scanner,
      "Enumerated " ++ toString listing.paths.length ++ " source files via " ++ listing.method⟩]

end Listing

end SourceAtlas
