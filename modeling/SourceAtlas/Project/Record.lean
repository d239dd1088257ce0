import SourceAtlas.Project.Generation
import SourceAtlas.Project.Status
import SourceAtlas.Project.Writing
import SourceAtlas.Record

/-!
# Records of the operations on projects

The JSON form of scans, generated documents, writing reports and statuses.
-/

namespace SourceAtlas

def Progress.toJson (progress : Progress) : Json :=
  .array [.string progress.phase.name, .nat progress.current, .nat progress.total,
    .string progress.message]

/-- The record of a scan that took so many milliseconds, given the form of its domains. -/
def Scan.toJson (domainJson : Domain → Json) (elapsed : Nat) (scan : Scan) : Json :=
  .object
    [("files", .array (scan.files.map SourceFile.toJson)),
     ("totalFiles", .nat scan.files.length), ("totalLines", .nat scan.totalLines),
     ("languages", .object ((Scan.languageCounts scan.files).map fun (name, n) => (name, .int n))),
     ("dependencies", .array (scan.dependencies.map Dependency.toJson)),
     ("domains", .array (scan.domains.map domainJson)),
     ("inlineTags", .array (scan.tags.map InlineTag.toJson)),
     ("scanDurationMs", .nat elapsed)]

def Generation.contentJson (generation : Generation) : Json :=
  .object
    [("claudeMd", .string generation.overview), ("repoIndex", .string generation.index),
     ("inlineTags", .array (generation.scan.tags.map InlineTag.toJson)),
     ("existingClaudeMd", .ofOption generation.existingOverview),
     ("existingRepoIndex", .ofOption generation.existingIndex)]

def Generation.fields (domainJson : Domain → Json) (elapsed : Nat) (generation : Generation) :
    List (String × Json) :=
  [("scanResult", generation.scan.toJson domainJson elapsed),
   ("generatedContent", generation.contentJson)]

def WriteReport.toJson (report : WriteReport) : Json :=
  .object
    [("claudeMdWritten", .bool report.overviewWritten),
     ("repoIndexWritten", .bool report.indexWritten), ("inlineTagsWritten", .nat report.tagsWritten)]

/-- The text of a moment in records, given the text of the present moment. -/
def Moment.recordText (now : String) : Moment → String
  | recently => now
  | .at timestamp => timestamp.recordText

def Status.toJson (now : String) (status : Status) : Json :=
  .object
    [("hasAtlas", .bool status.hasAtlas), ("claudeMdPath", .ofOption status.overview),
     ("repoIndexPath", .ofOption status.index),
     ("lastGenerated", .ofOption (status.updated.map (Moment.recordText now))),
     ("inlineTagCount", .nat status.tags.count)]

end SourceAtlas
