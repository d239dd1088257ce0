import SourceAtlas.Text.Newline
import SourceAtlas.Tree.Resolve

/-!
# Operations on files

Single operations of the system on a file tree: reading, making directories, creating, renaming and
removing files. An operation tells the edits that it makes; one that is refused makes none.
-/

namespace SourceAtlas.Tree

def readBytes (tree : Tree) (shell : Shell) (location : Location) :
    Except DiskFailure (List UInt8) := do
  match ← tree.stat shell location with
  | (_, .file bytes _) => .ok bytes
  | (_, _) => .error (.refused .isDirectory location.text)

/-- The text of a file, read leniently: malformed bytes are replaced and line breaks translated. -/
def readLenient (tree : Tree) (shell : Shell) (location : Location) :
    Except DiskFailure (List Char) :=
  (tree.readBytes shell location).map fun bytes =>
    Text.translateNewlines (Text.Utf8.decodeReplacing bytes)

/-- The text of a file as it stands. -/
def readExact (tree : Tree) (shell : Shell) (location : Location) :
    Except DiskFailure (List Char) := do
  (Text.Utf8.decode (← tree.readBytes shell location)).mapError fun cause =>
    .encoding (.undecodable cause)

/-- What is in the directory at a route, by names. -/
def children (tree : Tree) (directory : Route) : List (String × Entry) :=
  (tree.entriesBelow directory).filterMap fun (route, entry) =>
    match route with
    | [name] => some (name, entry)
    | _ => none

def listDirectory (tree : Tree) (shell : Shell) (location : Location) :
    Except DiskFailure (List (String × Entry)) := do
  match ← tree.stat shell location with
  | (route, .directory) => .ok (tree.children route)
  | (_, _) => .error (.refused .notDirectory location.text)

/-- Make one directory. -/
def makeDirectory (tree : Tree) (shell : Shell) (location : Location) :
    Except DiskFailure (List Edit) := do
  match ← tree.locate shell false location with
  | .vacant directory name => .ok [.put (directory ++ [name]) .directory]
  | .here _ _ => .error (.refused .exists location.text)

/-- Give the file at a location new bytes, and create it if it is not there. A link is followed. -/
def writeBytes (tree : Tree) (shell : Shell) (location : Location) (bytes : List UInt8) :
    Except DiskFailure (List Edit) := do
  match ← tree.locate shell true location with
  | .vacant directory name => .ok [.put (directory ++ [name]) (.file bytes .recently)]
  | .here route (.file _ _) => .ok [.put route (.file bytes .recently)]
  | .here _ _ => .error (.refused .isDirectory location.text)

/-- Append bytes to the file at a location, and create it if it is not there. A link is followed. -/
def appendBytes (tree : Tree) (shell : Shell) (location : Location) (bytes : List UInt8) :
    Except DiskFailure (List Edit) := do
  match ← tree.locate shell true location with
  | .vacant directory name => .ok [.put (directory ++ [name]) (.file bytes .recently)]
  | .here route (.file old _) =>
      .ok (if bytes.isEmpty then [] else [.put route (.file (old ++ bytes) .recently)])
  | .here _ _ => .error (.refused .isDirectory location.text)

def unlink (tree : Tree) (shell : Shell) (location : Location) :
    Except DiskFailure (List Edit) := do
  match ← tree.locate shell false location with
  | .vacant _ _ => .error (.refused .noEntry location.text)
  | .here _ .directory => .error (.refused .isDirectory location.text)
  | .here route _ => .ok [.remove route]

/-- A failure of an operation from one path to another names both. -/
def betweenPaths (source target : Location) : DiskFailure → DiskFailure
  | .refused errno _ _ => .refused errno source.text (some target.text)
  | failure => failure

/-- Move a file or link to a location; what is there, link or not, is replaced unless it is a
directory. -/
def rename (tree : Tree) (shell : Shell) (source target : Location) :
    Except DiskFailure (List Edit) :=
  Except.mapError (betweenPaths source target) do
    match ← tree.locate shell false source with
    | .vacant _ _ => .error (.refused .noEntry source.text)
    | .here route entry =>
        -- The last name alone decides, whatever it leads to.
        if target.name = ".." then .error (.refused .busy target.text)
        else
          match ← tree.locate shell false target with
          | .here _ .directory => .error (.refused .isDirectory target.text)
          | .here goal _ => .ok [.remove route, .put goal entry]
          | .vacant directory name => .ok [.remove route, .put (directory ++ [name]) entry]

end SourceAtlas.Tree
