import SourceAtlas.Text.Split

/-!
# Locations

A path as it is handed to the disk: from the root or not, and its segments without empty ones and
dots. A step to the parent stays, because it depends on links.
-/

namespace SourceAtlas

/-- Where a path starts. -/
inductive PathRoot
  /-- At the working directory. -/
  | relative
  /-- At the root. -/
  | single
  /-- At the root, written with two slashes. -/
  | double
  deriving DecidableEq, Repr, Inhabited

/-- A path for the disk. -/
structure Location where
  root : PathRoot
  parts : List String
  deriving DecidableEq, Repr, Inhabited

namespace Location

def rootText : PathRoot → String
  | .relative => ""
  | .single => "/"
  | .double => "//"

def rootOf : List Char → PathRoot
  | '/' :: '/' :: '/' :: _ => .single
  | '/' :: '/' :: _ => .double
  | '/' :: _ => .single
  | _ => .relative

/-- The segments of a text without empty ones and dots. -/
def partsOf (text : String) : List String :=
  (Text.splitString '/' text).filter fun part => !part.isEmpty && part != "."

def ofText (text : String) : Location := ⟨rootOf text.toList, partsOf text⟩

/-- The location of a directory given by all its segments from the root. -/
def ofRoute (route : List String) : Location := ⟨.single, route⟩

def text (location : Location) : String :=
  let body := rootText location.root ++ "/".intercalate location.parts
  if body.isEmpty then "." else body

/-- A location read from another one; one from the root stands for itself. -/
def join (location other : Location) : Location :=
  match other.root with
  | .relative => ⟨location.root, location.parts ++ other.parts⟩
  | _ => other

def child (location : Location) (path : String) : Location := location.join (ofText path)

def parent (location : Location) : Location := ⟨location.root, location.parts.dropLast⟩

/-- The location of names below another one. -/
def below (location : Location) (names : List String) : Location :=
  ⟨location.root, location.parts ++ names⟩

/-- One step up by the text alone. A relative location goes up above the place where it starts. -/
def up (location : Location) : Location :=
  match location.root, location.parts.getLast? with
  | .relative, none | .relative, some ".." => location.below [".."]
  | _, _ => location.parent

/-- The last segment, or nothing. -/
def name (location : Location) : String := location.parts.getLast?.getD ""

/-- The location whose last segment has an ending appended, if there is a segment. -/
def appending? (location : Location) (ending : String) : Option Location :=
  location.parts.getLast?.map fun name =>
    ⟨location.root, location.parts.dropLast ++ [name ++ ending]⟩

/-- A character that no path on a disk has. -/
def hasNul (location : Location) : Bool := location.parts.any fun part => part.toList.contains '\x00'

end Location

end SourceAtlas
