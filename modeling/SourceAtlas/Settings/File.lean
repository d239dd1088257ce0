import SourceAtlas.Settings
import SourceAtlas.Text.CharRange
import SourceAtlas.Text.Newline
import SourceAtlas.Text.Utf8
import SourceAtlas.Yaml.Value

/-!
# Settings files

A settings file is a YAML mapping. Each key is read leniently: a value of a wrong type counts as
not set. What is set then has to make valid settings.
-/

namespace SourceAtlas.Settings

def fileName : String := ".atlas.yml"

/-- Why a settings file is refused. -/
inductive FileError
  | notMapping
  /-- The file with this name is no YAML. -/
  | malformed (file : String)
  | invalid (cause : SettingsError)
  /-- An exclude pattern is an integer of too many digits. -/
  | longPattern
  deriving DecidableEq, Repr

def FileError.message : FileError → String
  | notMapping => fileName ++ " must contain a mapping at the root"
  | malformed file => "Failed to parse " ++ file
  | invalid cause => "Invalid " ++ fileName ++ ": " ++ cause.message
  | longPattern => "Invalid " ++ fileName ++ ": " ++ Number.tooLongToShow

/-- Why a settings file gives no settings. -/
inductive LoadError
  | refused (cause : FileError)
  /-- The bytes are no text. -/
  | encoding (cause : Text.Utf8.DecodeError)
  | badScalar (cause : Yaml.BadScalar)
  | tooDeep
  /-- The sensitivity is an integer of too many digits. -/
  | longSensitivity
  /-- The threshold is an integer beyond the doubles. -/
  | hugeThreshold
  deriving DecidableEq, Repr

def intOf? : Yaml.Value → Option Int
  | .int n => some n
  | .text t => Number.readInteger 10 t.toList
  | _ => none

def textOf? : Yaml.Value → Except LoadError (Option String)
  | .text t => .ok (some t)
  | .int n =>
      match Number.showInteger? n with
      | some digits => .ok (some digits)
      | none => .error .longSensitivity
  | .float x => .ok (some (Number.showDecimal x))
  | _ => .ok none

/-- The double nearest to an integer, which has to be finite. -/
def finiteDouble : Number.Binary64 → Except LoadError (Option Number.Binary64)
  | .infinite _ => .error .hugeThreshold
  | x => .ok (some x)

def doubleOf? : Yaml.Value → Except LoadError (Option Number.Binary64)
  | .int n => finiteDouble (Number.Binary64.ofInt n)
  | .float x => .ok (some x)
  | .text t => .ok (Number.readDecimal t.toList)
  | _ => .ok none

def patternOf? : Yaml.Value → Except LoadError (Option String)
  | .text t => .ok (some t)
  | .int n =>
      match Number.showInteger? n with
      | some digits => .ok (some digits)
      | none => .error (.refused .longPattern)
  | .float x => .ok (some (Number.showDecimal x))
  | .bool true => .ok (some "True")
  | .bool false => .ok (some "False")
  | _ => .ok none

def patternsOf : Yaml.Value → Except LoadError (List String)
  | .text t => .ok [t]
  | .list items => (items.mapM patternOf?).map fun found => found.filterMap id
  | .bytes octets => .ok (octets.map fun octet => toString octet.toNat)
  | _ => .ok []

def ofEntries (entries : List (Yaml.Value × Yaml.Value)) : Except LoadError Settings := do
  let field (name : String) : Yaml.Value := (Yaml.Value.field? name entries).getD .null
  let maxTags := intOf? (field "max_inline_tags")
  let sensitivity ← textOf? (field "domain_inference_sensitivity")
  let threshold ← doubleOf? (field "naming_overlap_threshold")
  let excludes ← patternsOf (field "exclude_patterns")
  (build (maxTags.getD defaultMaxTags)
    ((sensitivity.filter fun name => !name.isEmpty).getD defaultSensitivity) excludes
    (threshold.getD defaultThreshold)).mapError fun cause => .refused (.invalid cause)

/-- The settings of the value of a file; an empty value sets nothing. -/
def ofValue (value : Yaml.Value) : Except LoadError Settings :=
  match value with
  | .mapping entries => ofEntries entries
  | value => if value.isEmpty then ofEntries [] else .error (.refused .notMapping)

/-- The settings of the outcome of reading a file with a name. -/
def ofOutcome (file : String) : Except Yaml.Fault Yaml.Value → Except LoadError Settings
  | .ok value => ofValue value
  | .error (.malformed _) => .error (.refused (.malformed file))
  | .error (.badScalar cause) => .error (.badScalar cause)
  | .error .tooDeep => .error .tooDeep

def ofText [Yaml.Reader] (file : String) (text : List Char) : Except LoadError Settings :=
  if text.all Text.isBlank then ofEntries [] else ofOutcome file (Yaml.Reader.load text)

def ofBytes [Yaml.Reader] (file : String) (bytes : List UInt8) : Except LoadError Settings :=
  match Text.Utf8.decode bytes with
  | .ok text => ofText file (Text.translateNewlines text)
  | .error cause => .error (.encoding cause)

end SourceAtlas.Settings
