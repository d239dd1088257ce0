import SourceAtlas.Import.Extraction
import SourceAtlas.Log
import SourceAtlas.SourceFile
import SourceAtlas.Tag.Line
import SourceAtlas.Tree.File

/-!
# Reading source files

A listed path becomes a source file when its content can be read. A file that cannot be read is
left out of the scan.
-/

namespace SourceAtlas

/-- What a scan knows about a file with some bytes. -/
def SourceFile.ofBytes (path location : String) (bytes : List UInt8) : SourceFile :=
  let text := Text.translateNewlines (Text.Utf8.decodeReplacing bytes)
  let language := (Language.ofPath? path).getD .unknown
  { path := path
    location := location
    language := language
    lineCount := Text.lineCount text
    sizeBytes := bytes.length
    imports := language.importsOf text
    exports := language.exportsOf text
    layer := .ofPath path }

/-- A listed path, and what came of reading its file. -/
structure Reading where
  path : String
  outcome : Except DiskFailure SourceFile

namespace Reading

def ofPath (tree : Tree) (shell : Shell) (root : Location) (path : String) : Reading where
  path := path
  outcome :=
    let location := root.child path
    (tree.readBytes shell location).map (SourceFile.ofBytes path location.text)

/-- The file, if it could be read. -/
def file? (reading : Reading) : Option SourceFile := reading.outcome.toOption

/-- The record of a file that could not be read. -/
def record? (reading : Reading) : Option Log.Record :=
  match reading.outcome with
  | .ok _ => none
  | .error failure =>
      some ⟨.debug, .scanner,
        "Skipping unreadable file " ++ reading.path ++ ": " ++ failure.message⟩

end Reading

/-- The tag that the file at a location carries. -/
def Tree.tagAt? (tree : Tree) (shell : Shell) (location : Location) : Option String :=
  ((tree.readLenient shell location).toOption.bind Tag.find?).map String.ofList

end SourceAtlas
