import SourceAtlas.Domain.Channel
import SourceAtlas.Domain.Naming

/-!
# Domain inference

Three levels of sensitivity: directories only, then channels, then names after naming groups.
-/

namespace SourceAtlas

/-- How much of the files is taken into account. -/
inductive Sensitivity
  | low
  | medium
  | high
  deriving DecidableEq, Repr, Inhabited

namespace Sensitivity

def name : Sensitivity → String
  | low => "low"
  | medium => "medium"
  | high => "high"

def ofName? : String → Option Sensitivity
  | "low" => some low
  | "medium" => some medium
  | "high" => some high
  | _ => none

def names : List String := [low.name, medium.name, high.name]

structure Unknown where
  name : String
  deriving DecidableEq, Repr

def Unknown.message (unknown : Unknown) : String :=
  "Unknown domain inference sensitivity '" ++ unknown.name ++ "'"

def read (name : String) : Except Unknown Sensitivity :=
  match ofName? name with
  | some level => .ok level
  | none => .error ⟨name⟩

end Sensitivity

namespace Domain

/-- The domains of a list of files. -/
def infer (threshold : Number.Binary64) (sensitivity : Sensitivity) (files : List SourceFile) :
    List Domain :=
  let byDirectory := byDirectory files
  match sensitivity with
  | .low => byDirectory
  | .medium => byDirectory.map withChannels
  | .high =>
      (byDirectory.map withChannels).map (withGroupName threshold (namingGroups files))

end Domain

end SourceAtlas
