import SourceAtlas.Domain.Inference
import SourceAtlas.Number.Decimal
import SourceAtlas.Text.Case

/-!
# Settings

The knobs of one scan. Settings are built from loose values, checked in a fixed order, and can be
overridden without touching the settings that they come from.
-/

namespace SourceAtlas

/-- The knobs of a scan. -/
structure Settings where
  /-- At most this many tags are proposed. -/
  maxTags : Nat
  sensitivity : Sensitivity
  /-- Patterns of segments to leave out. -/
  excludes : List String
  /-- The part of a domain that a naming group has to cover. -/
  threshold : Number.Binary64
  deriving DecidableEq, Repr, Inhabited

/-- Why values make no settings. -/
inductive SettingsError
  | unknownSensitivity (name : String)
  | negativeMaxTags
  | thresholdOutOfRange
  deriving DecidableEq, Repr

def SettingsError.message : SettingsError → String
  | unknownSensitivity name =>
      "Unknown domain inference sensitivity '" ++ name ++ "' (expected one of: "
        ++ ", ".intercalate Sensitivity.names ++ ")"
  | negativeMaxTags => "max_inline_tags must not be negative"
  | thresholdOutOfRange => "naming_overlap_threshold must be within (0, 1]"

namespace Settings

def defaultMaxTags : Int := 20

def defaultSensitivity : String := "medium"

/-- The threshold unless another one is set: the double nearest to 0.3. -/
def defaultThreshold : Number.Binary64 := .ofRatio false 3 10

/-- A share of a whole: above zero and at most one. -/
def isShare (threshold : Number.Binary64) : Bool :=
  (Number.Binary64.ofNat 0).lt threshold && threshold.le (Number.Binary64.ofNat 1)

/-- Build settings from loose values. -/
def build (maxTags : Int) (sensitivity : String) (excludes : List String)
    (threshold : Number.Binary64) : Except SettingsError Settings :=
  let name := Text.lower sensitivity
  match Sensitivity.ofName? name with
  | none => .error (.unknownSensitivity name)
  | some level =>
      if maxTags < 0 then .error .negativeMaxTags
      else if isShare threshold then .ok ⟨maxTags.toNat, level, excludes, threshold⟩
      else .error .thresholdOutOfRange

/-- The settings of a project that sets nothing. -/
def standard : Settings where
  maxTags := defaultMaxTags.toNat
  sensitivity := .medium
  excludes := []
  threshold := defaultThreshold

structure Overrides where
  maxTags : Option Int := none
  sensitivity : Option String := none
  excludes : List String := []
  deriving DecidableEq, Repr, Inhabited

/-- Append a pattern unless it is there. -/
def addExclude (excludes : List String) (pattern : String) : List String :=
  if pattern ∈ excludes then excludes else excludes ++ [pattern]

def addExcludes (excludes patterns : List String) : List String :=
  patterns.foldl addExclude excludes

/-- Apply overrides; the outcome is checked anew. -/
def withOverrides (settings : Settings) (overrides : Overrides) : Except SettingsError Settings :=
  build (overrides.maxTags.getD settings.maxTags)
    (overrides.sensitivity.getD settings.sensitivity.name)
    (addExcludes settings.excludes overrides.excludes) settings.threshold

end Settings

end SourceAtlas
