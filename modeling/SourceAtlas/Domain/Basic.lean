import SourceAtlas.SourceFile
import SourceAtlas.Grouping
import SourceAtlas.Path.Slash
import SourceAtlas.Text.Search
import SourceAtlas.Text.Case

/-!
# Domains

A domain is a named cluster of files. Its members are decided by directory alone; the name and the
channels may be refined.
-/

namespace SourceAtlas

/-- A cluster of files that implement one functional area. -/
structure Domain where
  name : String
  files : List SourceFile
  /-- The message channels that the files of the domain serve. -/
  channels : Option String := none
  mainFiles : List String := []
  rendererFiles : List String := []
  sharedFiles : List String := []
  entrypoints : List String := []
  deriving DecidableEq, Repr, Inhabited

namespace Domain

def paths (domain : Domain) : List String := domain.files.map (·.path)

/-- The key of files at the project root. -/
def rootKey : String := "root"

/-- The directory that decides the domain of a path. Directories of the layers `main` and `renderer`
under `src` are split further. -/
def directoryKey (path : String) : String :=
  match Path.segments path with
  | [] | [_] => rootKey
  | "src" :: dir :: next :: rest =>
      if (dir = "main" ∨ dir = "renderer") ∧ ¬ rest.isEmpty then next else dir
  | dir :: _ => dir

def layerPaths (layer : Layer) (files : List SourceFile) : List String :=
  (files.filter (·.layer == layer)).map (·.path)

/-- A file that others are likely to enter by: more than three exports, or an index. -/
def isEntrypoint (file : SourceFile) : Bool :=
  3 < file.exports.length ||
    (Text.dropStart? "index".toList (Path.lastSegment file.path.toList)).isSome

/-- The domain of the files that share a directory key. -/
def ofGroup (key : String) (files : List SourceFile) : Domain where
  name := Text.titleCase key
  files := files
  mainFiles := layerPaths .main files
  rendererFiles := layerPaths .renderer files
  sharedFiles := layerPaths .shared files
  entrypoints := (files.filter isEntrypoint).map (·.path)

/-- The domains of a list of files by directory, the largest first; equal sizes keep the order of
their first file. -/
def byDirectory (files : List SourceFile) : List Domain :=
  ((groupByKey (fun file => directoryKey file.path) files).map
    fun group => ofGroup group.1 group.2).mergeSort
      fun a b => decide (b.files.length ≤ a.files.length)

end Domain

end SourceAtlas
