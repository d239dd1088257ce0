import SourceAtlas.Glob
import SourceAtlas.Language

/-!
# Which files are listed

A path is listed if its extension belongs to a language, no segment is excluded, and no directory
on it starts with a dot.
-/

namespace SourceAtlas.Listing

/-- Names that no listed path has among its segments. -/
def excludedNames : List String :=
  ["node_modules", ".git", "dist", "build", "out", ".next", "coverage", "__pycache__", ".venv",
   "vendor", "target", "bin", "obj", ".cache", ".turbo", ".parcel-cache"]

/-- A segment that excludes a path, by its name or by a pattern. -/
def isExcluded (patterns : List String) (segment : String) : Bool :=
  excludedNames.contains segment || patterns.any fun pattern => Glob.matchesName pattern segment

def isHidden (name : String) : Bool := name.toList.head? == some '.'

def accepts (patterns : List String) (path : String) : Bool :=
  let parts := Path.segments path
  !parts.any (isExcluded patterns) && !parts.dropLast.any isHidden
    && (Language.ofPath? path).isSome

end SourceAtlas.Listing
