import SourceAtlas.SourceFile
import SourceAtlas.Text.Search

/-!
# Ranking of files

Some signs tell that readers will enter the project by a file. Each sign has a weight, and the files
with the largest sums are proposed for a tag.
-/

namespace SourceAtlas

/-- A sign that a file is worth a tag. -/
inductive Sign
  | entrypoint
  | manyExports
  | manager
  | rootComponent
  | contract
  | substantial
  deriving DecidableEq, Repr

namespace Sign

/-- All signs, in the order in which they are named. -/
def all : List Sign := [entrypoint, manyExports, manager, rootComponent, contract, substantial]

def name : Sign → String
  | entrypoint => "entrypoint"
  | manyExports => "high export count"
  | manager => "domain manager"
  | rootComponent => "root component"
  | contract => "IPC contract"
  | substantial => "substantial file"

def defaultWeight : Sign → Int
  | entrypoint => 5
  | manyExports => 3
  | manager => 4
  | rootComponent => 5
  | contract => 5
  | substantial => 1

/-- Names of files that a directory is entered by. -/
def indexNames : List String := ["index.ts", "index.tsx", "index.js"]

def rootComponentNames : List String := ["App.tsx", "App.ts"]

def contractNames : List String := ["ipc-contract", "ipc-types"]

def holds (file : SourceFile) : Sign → Bool
  | entrypoint => indexNames.contains (Path.baseName file.path)
  | manyExports => 5 < file.exports.length
  | manager => Text.hasPart (Path.baseName file.path) "-manager"
  | rootComponent => rootComponentNames.contains (Path.baseName file.path)
  | contract => contractNames.any (Text.hasPart (Path.baseName file.path))
  | substantial => 200 < file.lineCount

def ofFile (file : SourceFile) : List Sign := all.filter (holds file)

/-- Weights set by the name of a sign. -/
abbrev Weights := List (String × Int)

def weight (weights : Weights) (sign : Sign) : Int :=
  (weights.lookup sign.name).getD sign.defaultWeight

def totalWeight (weights : Weights) (signs : List Sign) : Int :=
  signs.foldr (fun sign sum => weight weights sign + sum) 0

end Sign

/-- A file with its signs and the sum of their weights. -/
structure RankedFile where
  file : SourceFile
  signs : List Sign
  score : Int
  deriving Repr

namespace RankedFile

def ofFile (weights : Sign.Weights) (file : SourceFile) : RankedFile where
  file := file
  signs := Sign.ofFile file
  score := Sign.totalWeight weights (Sign.ofFile file)

def reason (ranked : RankedFile) : String := ", ".intercalate (ranked.signs.map Sign.name)

/-- A file can carry a tag and shows some sign. -/
def isCandidate (file : SourceFile) : Bool :=
  file.language.isTaggable && !(Sign.ofFile file).isEmpty

/-- The candidates of a list of files, the best first; equal scores keep the order of the list. -/
def candidates (weights : Sign.Weights) (files : List SourceFile) : List RankedFile :=
  ((files.filter isCandidate).map (ofFile weights)).mergeSort
    fun a b => decide (b.score ≤ a.score)

/-- The best candidates, at most `limit` of them. -/
def best (weights : Sign.Weights) (limit : Int) (files : List SourceFile) : List RankedFile :=
  (candidates weights files).take limit.toNat

end RankedFile

end SourceAtlas
