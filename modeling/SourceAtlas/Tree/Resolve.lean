import SourceAtlas.Text.Utf8
import SourceAtlas.Tree.Basic
import SourceAtlas.Tree.Failure

/-!
# Following paths

The system follows a path name by name and gives up after forty links. The real path of a path is
worked out by its text, one link at a time; it is told also when nothing is there.
-/

namespace SourceAtlas

/-- Where relative paths start, and where `~` leads. No other user has a home directory. -/
structure Shell where
  workingDirectory : Route
  home : Route
  deriving DecidableEq, Repr, Inhabited

/-- What a path leads to: an entry, or a place for one in a directory. -/
inductive Spot
  | here (route : Route) (entry : Entry)
  | vacant (directory : Route) (name : String)
  deriving DecidableEq, Repr

namespace Tree

def byteLength (text : String) : Nat := text.utf8ByteSize

/-- A name may have this many bytes. -/
def maxNameBytes : Nat := 255

/-- A path is shorter than this. -/
def maxPathBytes : Nat := 4096

/-- The system follows this many links on one path. -/
def maxLinks : Nat := 40

/-- The names of the path in a link. A slash at its end asks for a directory, as a dot does. -/
def linkNames (target : String) : List String :=
  let parts := Location.partsOf target
  if target.toList.getLast? = some '/' then parts ++ ["."] else parts

/-- Where the path in a link starts. -/
def linkStart (directory : Route) (target : String) : Route :=
  if target.toList.head? = some '/' then [] else directory

/-- Follow names from a directory; `follow` goes on behind a link. -/
def walkWith (tree : Tree) (followLast : Bool)
    (follow : Route → List String → Except Errno Spot) (directory : Route) :
    List String → Except Errno Spot
  | [] => .ok (.here directory .directory)
  | name :: rest =>
      if name = "." then walkWith tree followLast follow directory rest
      -- Links on the way have been followed: this is the parent of the real directory.
      else if name = ".." then walkWith tree followLast follow directory.dropLast rest
      else if maxNameBytes < byteLength name then .error .nameTooLong
      else
        let route := directory ++ [name]
        match tree.find? route with
        | none => if rest.isEmpty then .ok (.vacant directory name) else .error .noEntry
        | some .directory => walkWith tree followLast follow route rest
        | some (.file bytes modified) =>
            if rest.isEmpty then .ok (.here route (.file bytes modified)) else .error .notDirectory
        | some (.link target) =>
            if rest.isEmpty && !followLast then .ok (.here route (.link target))
            else follow (linkStart directory target) (linkNames target ++ rest)

def walk (tree : Tree) (followLast : Bool) : Nat → Route → List String → Except Errno Spot
  | 0 => walkWith tree followLast fun _ _ => .error .loop
  | links + 1 => walkWith tree followLast (walk tree followLast links)

def startOf (shell : Shell) (location : Location) : Route :=
  match location.root with
  | .relative => shell.workingDirectory
  | _ => []

/-- Follow a location; `followLast` tells whether a link at its end is followed too. -/
def locate (tree : Tree) (shell : Shell) (followLast : Bool) (location : Location) :
    Except DiskFailure Spot :=
  if location.hasNul then .error .nulByte
  else if maxPathBytes ≤ byteLength location.text then
    .error (.refused .nameTooLong location.text)
  else
    (walk tree followLast maxLinks (startOf shell location) location.parts).mapError
      fun errno => .refused errno location.text

def stat (tree : Tree) (shell : Shell) (location : Location) : Except DiskFailure (Route × Entry) := do
  match ← tree.locate shell true location with
  | .here route entry => .ok (route, entry)
  | .vacant _ _ => .error (.refused .noEntry location.text)

/-- The entry at a location, or nothing when the system says that there is none. -/
def probe (tree : Tree) (shell : Shell) (location : Location) :
    Except DiskFailure (Option Entry) :=
  match tree.stat shell location with
  | .ok (_, entry) => .ok (some entry)
  | .error (.refused errno path target) =>
      if errno.isAbsence then .ok none else .error (.refused errno path target)
  | .error .nulByte => .ok none
  | .error failure => .error failure

def isPresent (tree : Tree) (shell : Shell) (location : Location) : Except DiskFailure Bool :=
  (tree.probe shell location).map Option.isSome

def isDirectory (tree : Tree) (shell : Shell) (location : Location) : Except DiskFailure Bool :=
  (tree.probe shell location).map fun found => found == some .directory

def isFile (tree : Tree) (shell : Shell) (location : Location) : Except DiskFailure Bool :=
  (tree.probe shell location).map fun found =>
    match found with
    | some (.file _ _) => true
    | _ => false

/-- Take steps to the parent out of a route by its text. -/
def foldParents (names : List String) : Route :=
  (names.foldl (fun done name => if name = ".." then done.tail else name :: done) []).reverse

/-- The location from the root, with steps to the parent taken out by the text alone. -/
def absolute (shell : Shell) (location : Location) : Location :=
  let root := match location.root with
    | .relative => .single
    | root => root
  ⟨root, foldParents (startOf shell location ++ location.parts)⟩

/-- The path in the link at a location, if there is a link. -/
def linkAt? (tree : Tree) (shell : Shell) (location : Location) :
    Except DiskFailure (Option String) :=
  match tree.locate shell false location with
  | .ok (.here _ (.link target)) => .ok (some target)
  | .ok _ | .error (.refused ..) => .ok none
  | .error failure => .error failure

/-- The links that were met so far, by the paths on which they were reached. A link that is under
way has no real path yet. -/
abbrev Met := List (Location × Option Location)

/-- Why the links of a path are resolved no further. -/
inductive Halt
  /-- A link was met inside itself. The rest of the path stays behind it as it is. -/
  | circle (path : Location)
  | failed (cause : DiskFailure)
  deriving DecidableEq, Repr

/-- A halt in front of names that were still to come. -/
def Halt.before (names : List String) : Halt → Halt
  | circle path => .circle (path.child ("/".intercalate names))
  | failed cause => .failed cause

/-- The segments of the path in a link, empty ones included. -/
def targetNames (target : String) : List String := Text.splitString '/' target

/-- Where the path in a link starts when the link lies in a directory. -/
def targetStart (directory : Location) (target : String) : Location :=
  if target.toList.head? = some '/' then .ofRoute [] else directory

/-- The real path of names from a location whose links are resolved; `follow` resolves the path in
a link. Only the last name of a path is looked at, and whatever is no link stands for itself. -/
def realWith (tree : Tree) (shell : Shell)
    (follow : Met → Location → List String → Except Halt (Location × Met)) (met : Met)
    (here : Location) : List String → Except Halt (Location × Met)
  | [] => .ok (here, met)
  | name :: rest =>
      if name = "" ∨ name = "." then realWith tree shell follow met here rest
      else if name = ".." then realWith tree shell follow met here.up rest
      else
        let next := here.below [name]
        match tree.linkAt? shell next with
        | .error cause => .error (.failed cause)
        | .ok none => realWith tree shell follow met next rest
        | .ok (some target) =>
            match met.lookup next with
            | some (some path) => realWith tree shell follow met path rest
            | some none => .error ((Halt.circle next).before rest)
            | none =>
                match follow ((next, none) :: met) (targetStart here target)
                    (targetNames target) with
                | .error halt => .error (halt.before rest)
                | .ok (path, met) =>
                    realWith tree shell follow ((next, some path) :: met) path rest

/-- The real path of names from a location; the first argument bounds the links under way. -/
def real (tree : Tree) (shell : Shell) :
    Nat → Met → Location → List String → Except Halt (Location × Met)
  | 0 => realWith tree shell fun _ _ _ => .error (.failed .tooDeep)
  | links + 1 => realWith tree shell (real tree shell links)

/-- Links may lie this deep inside each other. -/
def maxNesting : Nat := 991

/-- Where the real path of a location starts. -/
def realStart (location : Location) : Location :=
  match location.root with
  | .relative => ⟨.relative, []⟩
  | _ => .ofRoute []

/-- The location with all links resolved as far as possible, whether anything is there or not. -/
def realPath (tree : Tree) (shell : Shell) (location : Location) : Except DiskFailure Location :=
  match real tree shell maxNesting [] (realStart location) location.parts with
  | .ok (path, _) | .error (.circle path) => .ok (absolute shell path)
  | .error (.failed cause) => .error cause

/-- The location with all links resolved, unless they lead in a circle. -/
def resolve (tree : Tree) (shell : Shell) (location : Location) : Except DiskFailure Location := do
  let path ← tree.realPath shell location
  match tree.stat shell path with
  | .error (.refused .loop text _) => .error (.linkLoop text)
  | .error .nulByte => .error .nulByte
  | _ => .ok path

/-- A location with the home directory in place of `~`. -/
def expandHome (shell : Shell) (location : Location) : Except DiskFailure Location :=
  match location.root, location.parts with
  | .relative, first :: rest =>
      if first = "~" then .ok ⟨.single, shell.home ++ rest⟩
      else if first.toList.head? = some '~' then .error .noHome
      else .ok location
  | _, _ => .ok location

end Tree

end SourceAtlas
