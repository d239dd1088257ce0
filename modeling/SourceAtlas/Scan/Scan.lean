import SourceAtlas.Dependency
import SourceAtlas.Document.Page
import SourceAtlas.Listing.Listing
import SourceAtlas.Scan.Progress
import SourceAtlas.Scan.Reading
import SourceAtlas.Settings
import SourceAtlas.Tag.Proposal

/-!
# Scans

A scan lists a project, reads its files, and derives the dependencies, the domains and the proposed
tags. It looks at the tree only, and what it reports on the way follows from its result.
-/

namespace SourceAtlas

structure Scan where
  listing : Listing
  readings : List Reading
  dependencies : List Dependency
  domains : List Domain
  tags : List InlineTag

namespace Scan

/-- The files that could be read. -/
def filesOf (readings : List Reading) : List SourceFile := readings.filterMap Reading.file?

def ofTree (tree : Tree) (shell : Shell) (reply : Git.Reply) (settings : Settings)
    (root : Location) : Scan :=
  let listing := Listing.ofTree tree shell reply settings.excludes root
  let readings := listing.paths.map (Reading.ofPath tree shell root)
  let files := filesOf readings
  let domains := Domain.infer settings.threshold settings.sensitivity files
  { listing := listing
    readings := readings
    dependencies := Dependency.graph Dependency.internalStarts files
    domains := domains
    tags := InlineTag.proposals (fun file => tree.tagAt? shell (.ofText file.location)) []
      domains settings.maxTags files }

def files (scan : Scan) : List SourceFile := filesOf scan.readings

def totalLines (scan : Scan) : Nat := totalLineCount scan.files

/-- The number of files in each language, in the order in which the languages first occur. -/
def languageCounts (files : List SourceFile) : List (String × Int) :=
  (groupByKey (fun file => file.language.name) files).map fun (name, group) =>
    (name, (group.length : Int))

def summary (scan : Scan) : Summary where
  files := scan.files
  totalFiles := scan.files.length
  totalLines := scan.totalLines
  languages := languageCounts scan.files
  domains := scan.domains

/-- Every so many files, the analysis tells how far it has come. -/
def interval : Nat := 20

/-- The events of reading one file, given its place in the listing. -/
def readingEvents (total index : Nat) (reading : Reading) : List ScanEvent :=
  (if index % interval = 0 then
    [.progress ⟨.analyzing, index, total, "Analyzing " ++ reading.path⟩]
  else [])
  ++ reading.record?.toList.map .record

def listingEvents (scan : Scan) : List ScanEvent :=
  let count := scan.listing.paths.length
  [.progress ⟨.enumerating, 0, 0, "Discovering source files..."⟩]
  ++ scan.listing.records.map .record
  ++ [.progress ⟨.enumerating, count, count, "Found " ++ toString count ++ " source files"⟩,
      .record ⟨.debug, .engine, "Enumerated " ++ toString count ++ " files"⟩]

def analysisEvents (scan : Scan) : List ScanEvent :=
  let total := scan.listing.paths.length
  let count := scan.files.length
  [.progress ⟨.analyzing, 0, total, "Analyzing imports..."⟩]
  ++ (scan.readings.mapIdx (readingEvents total)).flatten
  ++ [.progress ⟨.analyzing, count, count, "Import analysis complete"⟩]

/-- The events of deriving dependencies, domains and tags. -/
def inferenceEvents (scan : Scan) : List ScanEvent :=
  [.progress ⟨.inferring, 0, 1, "Inferring domains..."⟩,
   .progress ⟨.inferring, 1, 1, "Found " ++ toString scan.domains.length ++ " domains"⟩,
   .record ⟨.debug, .engine,
     "Resolved " ++ toString scan.dependencies.length ++ " dependencies, "
       ++ toString scan.domains.length ++ " domains, " ++ toString scan.tags.length
       ++ " tag candidates"⟩]

def documentEvents : List ScanEvent :=
  [.progress ⟨.generating, 0, 2, "Generating CLAUDE.md..."⟩,
   .progress ⟨.generating, 1, 2, "Generating repo-index.md..."⟩,
   .progress ⟨.generating, 2, 2, "Generation complete"⟩]

def startRecord (root : Location) : Log.Record :=
  ⟨.info, .engine, "Starting atlas scan for " ++ root.text⟩

/-- What is reported at the end of a scan that took so many milliseconds. -/
def endRecord (scan : Scan) (elapsed : Nat) : Log.Record :=
  ⟨.info, .engine,
    "Atlas scan finished: " ++ toString scan.files.length ++ " files, "
      ++ toString scan.domains.length ++ " domains in " ++ toString elapsed ++ " ms"⟩

/-- The events of a scan between its start and its end, in order. -/
def events (scan : Scan) : List ScanEvent :=
  scan.listingEvents ++ scan.analysisEvents ++ scan.inferenceEvents ++ documentEvents

def progress (scan : Scan) : List Progress := scan.events.filterMap ScanEvent.progress?

end Scan

end SourceAtlas
