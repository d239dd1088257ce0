import SourceAtlas.Domain.Basic
import SourceAtlas.Tag.Line
import SourceAtlas.Tag.Ranking

/-!
# Proposed tags

The best files get a tag that names their domain, their layer and the signs that speak for them. A
file that has a tag already keeps it unless somebody selects the proposal.
-/

namespace SourceAtlas

structure InlineTag where
  /-- The file to write to. -/
  location : String
  /-- The path from the project root. -/
  path : String
  /-- The tag that the file carries. -/
  current : Option String
  suggested : Text.Draft
  reason : String
  /-- The tag is to be written. -/
  selected : Bool := current.isNone
  deriving DecidableEq, Repr, Inhabited

namespace InlineTag

/-- The layer in parentheses, unless it says nothing. -/
def layerLabel (layer : Layer) : String :=
  if layer = .other then "" else " (" ++ layer.name ++ ")"

/-- What a tag calls the place of a file: its domain, or else its layer. -/
def placeLabel (domain : Option String) (layer : Layer) : String :=
  match domain with
  | some name => if name.isEmpty then layer.name else name
  | none => layer.name

def suggestion (file : SourceFile) (domain : Option String) (reason : String) : String :=
  file.language.lineComment?.getD "//" ++ " " ++ Tag.marker ++ " " ++ placeLabel domain file.layer
    ++ layerLabel file.layer ++ " - " ++ reason

/-- The name of the first domain that a path lies in. -/
def domainName? (domains : List Domain) (path : String) : Option String :=
  (domains.find? fun domain => domain.paths.contains path).map (·.name)

/-- The tag proposed for a ranked file; `current` tells the tag that a file carries. -/
def propose (current : SourceFile → Option String) (domains : List Domain) (ranked : RankedFile) :
    InlineTag where
  location := ranked.file.location
  path := ranked.file.path
  current := current ranked.file
  suggested :=
    suggestion ranked.file (domainName? domains ranked.file.path) ranked.reason
  reason := ranked.reason

/-- The tags proposed for a list of files, at most `limit` of them. -/
def proposals (current : SourceFile → Option String) (weights : Sign.Weights)
    (domains : List Domain) (limit : Int) (files : List SourceFile) : List InlineTag :=
  (RankedFile.best weights limit files).map (propose current domains)

end InlineTag

end SourceAtlas
