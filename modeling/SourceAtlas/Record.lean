import SourceAtlas.Dependency
import SourceAtlas.Json.Value
import SourceAtlas.Settings
import SourceAtlas.Tag.Proposal

/-!
# Records

The JSON form of files, dependencies, domains and tags.
-/

namespace SourceAtlas

def SourceFile.toJson (file : SourceFile) : Json :=
  .object
    [("relativePath", .string file.path), ("absolutePath", .string file.location),
     ("language", .string file.language.name), ("lineCount", .nat file.lineCount),
     ("sizeBytes", .nat file.sizeBytes), ("imports", .strings file.imports),
     ("exports", .strings file.exports), ("layer", .string file.layer.name)]

def Dependency.toJson (edge : Dependency) : Json :=
  .object
    [("from", .string edge.source), ("to", .string edge.target),
     ("importCount", .nat edge.importCount)]

/-- The record of a domain, given the form that its files take in it. -/
def Domain.toJsonWith (files : List SourceFile → Json) (domain : Domain) : Json :=
  .object
    [("name", .string domain.name), ("files", files domain.files),
     ("ipcPrefix", .ofOption domain.channels), ("mainFiles", .strings domain.mainFiles),
     ("rendererFiles", .strings domain.rendererFiles),
     ("sharedFiles", .strings domain.sharedFiles), ("entrypoints", .strings domain.entrypoints)]

/-- The record of a domain with the records of its files. -/
def Domain.toJson : Domain → Json :=
  Domain.toJsonWith fun files => .array (files.map SourceFile.toJson)

/-- The record of a domain with the paths of its files. -/
def Domain.toShortJson : Domain → Json :=
  Domain.toJsonWith fun files => .strings (files.map (·.path))

def InlineTag.toJson (tag : InlineTag) : Json :=
  .object
    [("filePath", .string tag.location), ("relativePath", .string tag.path),
     ("currentTag", .ofOption tag.current), ("suggestedTag", .ofDraft tag.suggested),
     ("reason", .string tag.reason), ("selected", .bool tag.selected)]

end SourceAtlas
