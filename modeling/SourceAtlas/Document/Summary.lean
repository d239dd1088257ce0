import SourceAtlas.Domain.Basic
import SourceAtlas.Tag.Ranking

/-!
# What the documents show

The figures and files of a scan, and the parts of the documents that are derived from them.
-/

namespace SourceAtlas

/-- What the documents are written from. -/
structure Summary where
  files : List SourceFile
  totalFiles : Int
  totalLines : Int
  /-- The number of files in each language. -/
  languages : List (String × Int)
  domains : List Domain
  deriving Repr

namespace Summary

/-- Order of languages: the frequent ones first, equal ones by name. -/
def frequencyLe (a b : String × Int) : Bool :=
  b.2 < a.2 || (a.2 == b.2 && Text.codePointLe a.1 b.1)

/-- The most frequent known languages with their numbers of files. -/
def techStack (languages : List (String × Int)) : String :=
  let known := languages.filter fun entry => entry.1 != Language.unknown.name
  " | ".intercalate (((known.mergeSort frequencyLe).take 5).map fun entry =>
    Text.titleCase entry.1 ++ " (" ++ toString entry.2 ++ ")")

/-- A file that the program is entered by. -/
def isEntrypoint (file : SourceFile) : Bool :=
  (file.layer == .main || file.layer == .preload) && Sign.holds file .entrypoint

def entrypoints (files : List SourceFile) : List SourceFile := files.filter isEntrypoint

/-- The name of a test file: one of its parts between dots says so. -/
def isTestName (name : String) : Bool :=
  (Text.splitString '.' name).any fun part => part == "test" || part == "spec"

/-- The least path whose file name contains one of the parts and is no test. -/
def firstPath? (files : List SourceFile) (parts : List String) : Option String :=
  ((files.map (·.path)).filter fun path =>
      let name := Path.baseName path
      parts.any (Text.hasPart name) && !isTestName name).mergeSort Text.codePointLe |>.head?

def contractPath? (files : List SourceFile) : Option String :=
  firstPath? files Sign.contractNames

def handlersPath? (files : List SourceFile) : Option String := firstPath? files ["ipc-handlers"]

/-- The project has a main and a renderer layer. -/
def isLayered (files : List SourceFile) : Bool :=
  usesLayer .main files && usesLayer .renderer files

end Summary

end SourceAtlas
