import SourceAtlas.SourceFile
import SourceAtlas.Path.Slash
import SourceAtlas.Text.Search

/-!
# Dependencies

Imports that start with an internal prefix are resolved against the scanned files; the resolved
ones make a weighted graph without loops.
-/

namespace SourceAtlas

open SourceAtlas.Path

/-- An edge between two files: `importCount` imports of `source` resolve to `target`. -/
structure Dependency where
  source : String
  target : String
  importCount : Nat
  deriving DecidableEq, Repr

namespace Dependency

/-- Imports that start with one of these are inside the project. -/
def internalStarts : List String := [".", "/", "src/"]

def isInternal (starts : List String) (target : String) : Bool :=
  starts.any fun start => (Text.dropStart? start.toList target.toList).isSome

/-- The names under which a file can be reached: its path, its path without extension, and its
bare name. -/
structure Names where
  path : List Char
  trimmed : List Char
  bare : List Char
  file : SourceFile

def namesOf (file : SourceFile) : Names where
  path := file.path.toList
  trimmed := withoutExtension file.path.toList
  bare := withoutExtension (lastSegment file.path.toList)
  file := file

/-- The file that a name reaches. A path or trimmed path goes to the last file that has it; a bare
name goes to a file only while nothing else holds the name. -/
def find? (table : List Names) (name : List Char) : Option SourceFile :=
  table.foldl
    (fun found names =>
      if names.path = name ∨ names.trimmed = name then some names.file
      else if names.bare = name ∧ found.isNone then some names.file
      else found)
    none

/-- The project path that an import denotes. One that starts with a dot is read from the directory
of its file, any other from the root. -/
def resolvedPath (importer target : List Char) : List Char :=
  if target.head? = some '.' then normalize (joinText (dirName importer) target)
  else target.dropWhile (· == '/')

/-- The names to try for a path: itself, its index, itself without extension. -/
def candidates (path : List Char) : List (List Char) :=
  [path, path ++ "/index".toList, withoutExtension path]

/-- The file that an import of a file resolves to. -/
def resolve? (table : List Names) (importer target : String) : Option SourceFile :=
  (candidates (resolvedPath importer.toList target.toList)).findSome? (find? table)

/-- Count one more import on an edge. -/
def countImport (edges : List Dependency) (source target : String) : List Dependency :=
  match edges with
  | [] => [⟨source, target, 1⟩]
  | edge :: rest =>
      if edge.source = source ∧ edge.target = target then
        { edge with importCount := edge.importCount + 1 } :: rest
      else edge :: countImport rest source target

/-- The internal imports of all files with the files they resolve to, loops left out. -/
def resolvedImports (starts : List String) (files : List SourceFile) : List (String × String) :=
  let table := files.map namesOf
  files.flatMap fun file =>
    (file.imports.filter (isInternal starts)).filterMap fun target =>
      match resolve? table file.path target with
      | some found => if found.path = file.path then none else some (file.path, found.path)
      | none => none

/-- The dependency graph of a list of files: edges in the order of their first import. -/
def graph (starts : List String) (files : List SourceFile) : List Dependency :=
  (resolvedImports starts files).foldl (fun edges pair => countImport edges pair.1 pair.2) []

end Dependency

end SourceAtlas
