import SourceAtlas.Project.Root
import SourceAtlas.Scan.Scan

/-!
# Generating the documents

A project is scanned and the texts of its documents are made. Nothing is written; the documents that
are there already are read for comparison.
-/

namespace SourceAtlas

/-- The documents made from a scan, beside what is on the disk. -/
structure Generation where
  root : Location
  scan : Scan
  overview : String
  index : String
  existingOverview : Option String
  existingIndex : Option String

namespace Generation

/-- The text of a document on the disk. -/
def existing? (tree : Tree) (shell : Shell) (root : Location) (page : Page) : Option String :=
  (tree.readLenient shell (Project.pageLocation root page)).toOption.map String.ofList

def ofTree (tree : Tree) (shell : Shell) (reply : Git.Reply) (settings : Settings)
    (root : Location) : Generation :=
  let scan := Scan.ofTree tree shell reply settings root
  let name := Project.nameOf root
  { root := root
    scan := scan
    overview := Page.text .overview name scan.summary
    index := Page.text .index name scan.summary
    existingOverview := existing? tree shell root .overview
    existingIndex := existing? tree shell root .index }

end Generation

namespace Project

/-- Generate the documents of the project at a path, with the settings of the project unless others
are given. -/
def generate [Yaml.Reader] (tree : Tree) (shell : Shell) (reply : Git.Reply) (path : String)
    (given : Option Settings) : Except Failure Generation := do
  let root ← root tree shell path
  let settings ← match given with
    | some settings => pure settings
    | none => settings tree shell root
  return .ofTree tree shell reply settings root

end Project

end SourceAtlas
