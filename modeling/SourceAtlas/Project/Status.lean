import SourceAtlas.Listing.Listing
import SourceAtlas.Project.Root
import SourceAtlas.Scan.Reading
import SourceAtlas.Timestamp

/-!
# The status of a project

Which documents a project has, when the overview was last written, and how many of its files carry
a tag. Git is asked first for the files that may carry one; without it all listed files are read.
-/

namespace SourceAtlas

/-- When a file was last written, on the clock. -/
inductive Moment
  /-- During the run. -/
  | recently
  | at (timestamp : Timestamp)
  deriving DecidableEq, Repr

/-- A moment on the clock, if it can be shown. -/
def Modified.moment : Modified → Except Failure Moment
  | recently => .ok .recently
  | .at micros =>
      match Timestamp.ofModification? micros with
      | some timestamp => .ok (.at timestamp)
      | none => .error (.year (Timestamp.yearOfModification micros))

/-- The number of tagged files of a project, and how it was found. -/
structure TagCount where
  count : Nat
  /-- Why git is of no use, and the listing that took its place. -/
  fallback : Option (Git.Failure × Listing)
  deriving DecidableEq, Repr

namespace TagCount

def isTaggable (path : String) : Bool := ((Language.ofPath? path).map (·.isTaggable)).getD false

def isTagged (tree : Tree) (shell : Shell) (root : Location) (path : String) : Bool :=
  isTaggable path && (tree.tagAt? shell (root.child path)).isSome

/-- Count the tagged files among those that git has found. -/
def amongFound (tree : Tree) (shell : Shell) (root : Location) (output : String) : Nat :=
  ((Git.pathsOf output).filter fun path =>
    Listing.accepts [] path && isTagged tree shell root path).length

/-- Count the tagged files of a listing. -/
def amongListed (tree : Tree) (shell : Shell) (root : Location) (listing : Listing) : Nat :=
  (listing.paths.filter (isTagged tree shell root)).length

def ofTree (tree : Tree) (shell : Shell) (git : Git.Replies) (root : Location) :
    Except Failure TagCount :=
  match git.search with
  | .ok output => .ok ⟨amongFound tree shell root output, none⟩
  -- This code says that nothing was found.
  | .error (.exited 1) => .ok ⟨0, none⟩
  | .error .timedOut => .error .timedOut
  | .error failure =>
      let listing := Listing.ofTree tree shell git.listing [] root
      .ok ⟨amongListed tree shell root listing, some (failure, listing)⟩

def records (count : TagCount) : List Log.Record :=
  match count.fallback with
  | none => []
  | some (failure, listing) =>
      ⟨.debug, .engine,
        "git grep unavailable (" ++ failure.message .search ++ "); reading files directly"⟩
      :: listing.records

end TagCount

structure Status where
  /-- The path of the overview, if there is one. -/
  overview : Option String
  /-- The path of the index, if there is one. -/
  index : Option String
  /-- When the overview was last written. -/
  updated : Option Moment
  tags : TagCount
  deriving Repr

namespace Status

def hasAtlas (status : Status) : Bool := status.overview.isSome || status.index.isSome

end Status

namespace Project

/-- The path of a document, if it is a file. -/
def pagePath? (tree : Tree) (shell : Shell) (root : Location) (page : Page) :
    Except DiskFailure (Option String) := do
  let location := pageLocation root page
  return if ← tree.isFile shell location then some location.text else none

/-- When a document was last written, if it is a file. -/
def pageModified? (tree : Tree) (shell : Shell) (root : Location) (page : Page) : Option Modified :=
  match tree.stat shell (pageLocation root page) with
  | .ok (_, .file _ modified) => some modified
  | _ => none

def statusIn (tree : Tree) (shell : Shell) (git : Git.Replies) (root : Location) :
    Except Failure Status := do
  let overview ← onDisk (pagePath? tree shell root .overview)
  let index ← onDisk (pagePath? tree shell root .index)
  let updated ← (pageModified? tree shell root .overview).mapM Modified.moment
  return ⟨overview, index, updated, ← TagCount.ofTree tree shell git root⟩

def status (tree : Tree) (shell : Shell) (git : Git.Replies) (path : String) :
    Except Failure Status := do
  statusIn tree shell git (← root tree shell path)

end Project

end SourceAtlas
