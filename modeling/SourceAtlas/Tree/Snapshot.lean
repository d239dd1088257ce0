import SourceAtlas.Json.Value
import SourceAtlas.Text.Utf8
import SourceAtlas.Tree.Resolve

/-!
# Snapshots of file trees

A file tree as JSON: an object with a field for each path. A file is its text, a directory is null, a
link is an object with its target. The parents of every path are directories. What changes between
two trees is written in the same way, with `false` for what is no longer there.
-/

namespace SourceAtlas.Tree

/-- Put a directory at a route and at every route above it where nothing is. -/
def withDirectories (tree : Tree) (route : Route) : Tree :=
  ((List.range route.length).map fun n => route.take (n + 1)).foldl
    (fun tree above => if (tree.find? above).isNone then tree.set above .directory else tree) tree

def entryOf? : Json → Option Entry
  | .string text => some (.file (Text.Utf8.encode text.toList) (.at 0))
  | .null => some .directory
  | .object [("link", .string target)] => some (.link target)
  | _ => none

def withValue (tree : Tree) (path : String) (value : Json) : Tree :=
  match Location.partsOf path, entryOf? value with
  | [], _ => tree
  | route, some entry => (tree.withDirectories route.dropLast).set route entry
  | _, none => tree

def ofJson : Json → Tree
  | .object fields => fields.foldl (fun tree (path, value) => tree.withValue path value) {}
  | _ => {}

/-- The value of an entry; bytes that are no text are replaced. -/
def entryJson : Entry → Json
  | .file bytes _ => .string (String.ofList (Text.Utf8.decodeReplacing bytes))
  | .directory => .null
  | .link target => .object [("link", .string target)]

def pathText (route : Route) : String := (Location.ofRoute route).text

def toJson (tree : Tree) : Json :=
  .object (tree.entries.map fun (route, entry) => (pathText route, entryJson entry))

/-- The changes that lead from one tree to another. -/
def changesJson (before after : Tree) : Json :=
  .object
    ((after.entries.filter fun (route, entry) => before.find? route != some entry).map
        (fun (route, entry) => (pathText route, entryJson entry))
      ++ (before.entries.filter fun (route, _) => (after.find? route).isNone).map
        fun (route, _) => (pathText route, .bool false))

end SourceAtlas.Tree
