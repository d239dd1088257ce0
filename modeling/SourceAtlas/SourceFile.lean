import SourceAtlas.Language
import SourceAtlas.Layer
import SourceAtlas.Text.Order

/-!
# Source files

What one scan knows about one file.
-/

namespace SourceAtlas

/-- A scanned file. Imports and exports are sorted and hold no repetitions. -/
structure SourceFile where
  /-- The path from the project root, with slashes. -/
  path : String
  /-- The absolute path. -/
  location : String
  language : Language
  lineCount : Nat
  sizeBytes : Nat
  /-- Import targets as they are written in the file. -/
  imports : List String := []
  /-- Exported names. -/
  exports : List String := []
  layer : Layer := .other
  deriving DecidableEq, Repr, Inhabited

def usesLayer (layer : Layer) (files : List SourceFile) : Bool := files.any (·.layer == layer)

def totalLineCount (files : List SourceFile) : Nat :=
  files.foldr (fun file count => file.lineCount + count) 0

end SourceAtlas
