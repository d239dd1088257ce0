import Mathlib.Control.Monad.Basic
import SourceAtlas.Project.Root
import SourceAtlas.Proofs.Settings.Values
import SourceAtlas.Yaml.Document

/-!
# Loading settings

Whatever a settings file stands for, it is either accepted, and then the settings are valid and hold
what the file sets, or refused. There are two exceptions, both integers out of range: a sensitivity
of too many digits and a threshold beyond the doubles.
-/

namespace SourceAtlas

namespace Settings

open Outcome

variable {entries : List (Yaml.Value × Yaml.Value)} {settings : Settings} {failure : LoadError}

/-- The value of a key; a key that is not set is null. -/
def valueOf (key : String) (entries : List (Yaml.Value × Yaml.Value)) : Yaml.Value :=
  (Yaml.Value.field? key entries).getD .null

/-- Valid settings that hold what entries set, and defaults for the rest. -/
structure Holds (entries : List (Yaml.Value × Yaml.Value)) (settings : Settings) : Prop where
  tags : (settings.maxTags : Int) =
    (intOf? (valueOf "max_inline_tags" entries)).getD defaultMaxTags
  level : ∃ name, textOf? (valueOf "domain_inference_sensitivity" entries) = .ok name ∧
    settings.sensitivity.name =
      Text.lower ((name.filter fun name => !name.isEmpty).getD defaultSensitivity)
  excludes : patternsOf (valueOf "exclude_patterns" entries) = .ok settings.excludes
  threshold : ∃ found, doubleOf? (valueOf "naming_overlap_threshold" entries) = .ok found ∧
    settings.threshold = found.getD defaultThreshold
  share : IsShare settings.threshold

/-- The sensitivity is an integer that is too long to be a text. -/
def IsLongLevel (entries : List (Yaml.Value × Yaml.Value)) : Prop :=
  ∃ n, valueOf "domain_inference_sensitivity" entries = .int n ∧ Number.IsLong n

/-- The threshold is an integer beyond the doubles. -/
def IsHugeThreshold (entries : List (Yaml.Value × Yaml.Value)) : Prop :=
  ∃ n, valueOf "naming_overlap_threshold" entries = .int n ∧ Number.IsHuge n

theorem ofEntries_eq_ok_iff : ofEntries entries = .ok settings ↔ Holds entries settings := by
  unfold ofEntries
  simp only [bind_eq_ok_iff, mapError_eq_ok_iff, build_eq_ok_iff]
  constructor
  · rintro ⟨name, hname, found, hfound, excludes, hexcludes, htags, hlevel, rfl, hthreshold, hshare⟩
    rw [← hthreshold] at hshare
    exact ⟨htags, ⟨name, hname, hlevel⟩, hexcludes, ⟨found, hfound, hthreshold⟩, hshare⟩
  · rintro ⟨htags, ⟨name, hname, hlevel⟩, hexcludes, ⟨found, hfound, hthreshold⟩, hshare⟩
    rw [hthreshold] at hshare
    exact ⟨name, hname, found, hfound, _, hexcludes, htags, hlevel, rfl, hthreshold, hshare⟩

theorem exists_text (hshort : ¬ IsLongLevel entries) :
    ∃ name, textOf? (valueOf "domain_inference_sensitivity" entries) = .ok name := by
  cases htext : textOf? (valueOf "domain_inference_sensitivity" entries) with
  | ok name => exact ⟨name, rfl⟩
  | error failure => exact absurd (textOf?_eq_error_iff.mp htext).2 hshort

theorem ofEntries_of_long (hlong : IsLongLevel entries) :
    ofEntries entries = .error .longSensitivity := by
  have htext := textOf?_eq_error_iff.mpr ⟨rfl, hlong⟩
  unfold ofEntries
  dsimp only
  rw [bind_eq_error_iff]
  exact .inl htext

theorem ofEntries_of_huge (hshort : ¬ IsLongLevel entries) (hhuge : IsHugeThreshold entries) :
    ofEntries entries = .error .hugeThreshold := by
  obtain ⟨name, hname⟩ := exists_text hshort
  have hdouble := doubleOf?_eq_error_iff.mpr ⟨rfl, hhuge⟩
  unfold ofEntries
  dsimp only
  rw [bind_eq_error_iff]
  refine .inr ⟨name, hname, ?_⟩
  rw [bind_eq_error_iff]
  exact .inl hdouble

/-- Once the level and the threshold are converted, every failure is a refusal. -/
theorem ofEntries_eq_error (hshort : ¬ IsLongLevel entries) (hsmall : ¬ IsHugeThreshold entries)
    (h : ofEntries entries = .error failure) : ∃ cause, failure = .refused cause := by
  unfold ofEntries at h
  simp only [bind_eq_error_iff, mapError_eq_error_iff] at h
  rcases h with htext | ⟨_, -, hdouble | ⟨_, -, hpatterns | ⟨_, -, cause, -, hcause⟩⟩⟩
  · exact absurd (textOf?_eq_error_iff.mp htext).2 hshort
  · exact absurd (doubleOf?_eq_error_iff.mp hdouble).2 hsmall
  · exact ⟨_, patternsOf_eq_error hpatterns⟩
  · exact ⟨_, hcause.symm⟩

theorem ofEntries_settled_iff :
    ((∃ settings, ofEntries entries = .ok settings) ∨
        ∃ cause, ofEntries entries = .error (.refused cause)) ↔
      ¬ IsLongLevel entries ∧ ¬ IsHugeThreshold entries := by
  constructor
  · intro hsettled
    by_cases hlong : IsLongLevel entries
    · rw [ofEntries_of_long hlong] at hsettled
      rcases hsettled with ⟨_, h⟩ | ⟨_, h⟩ <;> cases h
    by_cases hhuge : IsHugeThreshold entries
    · rw [ofEntries_of_huge hlong hhuge] at hsettled
      rcases hsettled with ⟨_, h⟩ | ⟨_, h⟩ <;> cases h
    exact ⟨hlong, hhuge⟩
  · rintro ⟨hshort, hsmall⟩
    cases h : ofEntries entries with
    | ok settings => exact .inl ⟨settings, rfl⟩
    | error failure =>
        obtain ⟨cause, rfl⟩ := ofEntries_eq_error hshort hsmall h
        exact .inr ⟨cause, rfl⟩

theorem ofEntries_long_iff :
    ofEntries entries = .error .longSensitivity ↔ IsLongLevel entries := by
  refine ⟨fun h => ?_, ofEntries_of_long⟩
  by_contra hshort
  by_cases hhuge : IsHugeThreshold entries
  · rw [ofEntries_of_huge hshort hhuge] at h
    cases h
  · obtain ⟨cause, hcause⟩ := ofEntries_eq_error hshort hhuge h
    cases hcause

theorem ofEntries_huge_iff :
    ofEntries entries = .error .hugeThreshold ↔
      ¬ IsLongLevel entries ∧ IsHugeThreshold entries := by
  refine ⟨fun h => ?_, fun h => ofEntries_of_huge h.1 h.2⟩
  have hshort : ¬ IsLongLevel entries := fun hlong => by
    rw [ofEntries_of_long hlong] at h
    cases h
  refine ⟨hshort, ?_⟩
  by_contra hsmall
  obtain ⟨cause, hcause⟩ := ofEntries_eq_error hshort hsmall h
  cases hcause

variable {outcome : Except Yaml.Fault Yaml.Value}

/-- What reading the text of a file tells; a blank text sets nothing. -/
def reading [Yaml.Reader] (text : List Char) : Except Yaml.Fault Yaml.Value :=
  if text.all Text.isBlank then .ok .null else Yaml.Reader.load text

theorem ofText_eq [Yaml.Reader] (file : String) (text : List Char) :
    ofText file text = ofOutcome file (reading text) := by
  unfold ofText reading
  split <;> rfl

/-- A value, or word that the text is no YAML. -/
def isTold : Except Yaml.Fault Yaml.Value → Bool
  | .ok _ | .error (.malformed _) => true
  | .error _ => false

/-- The entries of the mapping of a file; an empty value counts as an empty mapping. -/
def entriesOf? : Except Yaml.Fault Yaml.Value → Option (List (Yaml.Value × Yaml.Value))
  | .ok (.mapping entries) => some entries
  | .ok value => if value.isEmpty then some [] else none
  | .error _ => none

theorem ofOutcome_of_entries (file : String) (hentries : entriesOf? outcome = some entries) :
    ofOutcome file outcome = ofEntries entries := by
  unfold entriesOf? at hentries
  split at hentries
  · cases hentries
    rfl
  · next value hvalue =>
      split at hentries
      · next hempty =>
          cases hentries
          unfold ofOutcome ofValue
          dsimp only
          split
          · next mapped => exact absurd rfl (hvalue mapped)
          · rw [if_pos hempty]
      · cases hentries
  · cases hentries

theorem ofOutcome_of_none (file : String) (htold : isTold outcome = true)
    (hnone : entriesOf? outcome = none) :
    ∃ cause, ofOutcome file outcome = .error (.refused cause) := by
  unfold entriesOf? at hnone
  split at hnone
  · cases hnone
  · next value hvalue =>
      split at hnone
      · cases hnone
      · next hfull =>
          refine ⟨.notMapping, ?_⟩
          unfold ofOutcome ofValue
          dsimp only
          split
          · next mapped => exact absurd rfl (hvalue mapped)
          · rw [if_neg hfull]
  · next fault =>
      cases fault with
      | malformed cause => exact ⟨_, rfl⟩
      | badScalar cause => cases htold
      | tooDeep => cases htold

/-- The settings, the refusal or the failure that the outcome of reading a file leads to. -/
structure Verdict (outcome : Except Yaml.Fault Yaml.Value) (result : Except LoadError Settings) :
    Prop where
  accepted_iff : ∀ settings, result = .ok settings ↔
    ∃ entries, entriesOf? outcome = some entries ∧ Holds entries settings
  settled_iff : ((∃ settings, result = .ok settings) ∨ ∃ cause, result = .error (.refused cause)) ↔
    ∀ entries, entriesOf? outcome = some entries → ¬ IsLongLevel entries ∧ ¬ IsHugeThreshold entries
  long_iff : result = .error .longSensitivity ↔
    ∃ entries, entriesOf? outcome = some entries ∧ IsLongLevel entries
  huge_iff : result = .error .hugeThreshold ↔
    ∃ entries, entriesOf? outcome = some entries ∧ ¬ IsLongLevel entries ∧ IsHugeThreshold entries

theorem verdict (file : String) (htold : isTold outcome = true) :
    Verdict outcome (ofOutcome file outcome) := by
  cases hentries : entriesOf? outcome with
  | none =>
      obtain ⟨cause, hrefused⟩ := ofOutcome_of_none file htold hentries
      rw [hrefused]
      constructor <;> simp [hentries]
  | some entries =>
      rw [ofOutcome_of_entries file hentries]
      constructor <;> simp only [hentries, Option.some.injEq, exists_eq_left', forall_eq']
      · exact fun settings => ofEntries_eq_ok_iff
      · exact ofEntries_settled_iff
      · exact ofEntries_long_iff
      · exact ofEntries_huge_iff

end Settings

namespace Project

open Settings

/-- A file with a text is the settings file for a location. -/
structure IsReadable (tree : Tree) (shell : Shell) (location file : Location) (text : List Char) :
    Prop where
  found : settingsFile tree shell location = .ok file
  content : ∃ route bytes modified, tree.stat shell file = .ok (route, .file bytes modified) ∧
    Text.Utf8.decode bytes = .ok text

variable {tree : Tree} {shell : Shell} {location file : Location} {text : List Char}

theorem loadSettings_of_isReadable [Yaml.Reader] (h : IsReadable tree shell location file text) :
    loadSettings tree shell location =
      (ofOutcome file.name (reading (Text.translateNewlines text))).mapError .settings := by
  obtain ⟨hfound, route, bytes, modified, hstat, hdecode⟩ := h
  have hpresent : tree.isPresent shell file = .ok true := by
    unfold Tree.isPresent Tree.probe
    rw [hstat]
    rfl
  have hbytes : tree.readBytes shell file = .ok bytes := by
    unfold Tree.readBytes
    rw [hstat]
    rfl
  have hsettings : ofBytes file.name bytes =
      ofOutcome file.name (reading (Text.translateNewlines text)) := by
    unfold ofBytes
    rw [hdecode]
    exact ofText_eq _ _
  unfold loadSettings onDisk
  rw [hfound]
  simp only [Outcome.mapError_ok, bind, Except.bind, hpresent, hbytes, hsettings]
  rfl

/-- Whatever its settings file stands for, a project gets valid settings or a refusal, unless the
file sets an integer that is out of range. -/
theorem loadSettings_verdict [Yaml.Reader] (h : IsReadable tree shell location file text) :
    loadSettings tree shell location =
        (ofOutcome file.name (reading (Text.translateNewlines text))).mapError .settings ∧
      ∀ outcome, isTold outcome = true → Verdict outcome (ofOutcome file.name outcome) :=
  ⟨loadSettings_of_isReadable h, fun _ htold => verdict file.name htold⟩

/-- Settings whose threshold is a one with 309 zeros. -/
def hugeText : List Char := "naming_overlap_threshold: 1".toList ++ List.replicate 309 '0'

/-- A project with these settings. -/
def hugeTree : Tree where
  entries := [(["p"], .directory),
    (["p", ".atlas.yml"], .file (Text.Utf8.encode hugeText) .recently)]

theorem loadSettings_verdict_huge :
    loadSettings hugeTree ⟨[], []⟩ (.ofRoute ["p"]) = .error (.settings .hugeThreshold) ∧
    ∃ entries, entriesOf? (reading (Text.translateNewlines hugeText)) = some entries ∧
      ¬ IsLongLevel entries ∧ IsHugeThreshold entries := by
  have hreadable : IsReadable hugeTree ⟨[], []⟩ (.ofRoute ["p"]) (.ofRoute ["p", ".atlas.yml"])
      hugeText :=
    ⟨by decide +kernel, ["p", ".atlas.yml"], Text.Utf8.encode hugeText, .recently,
      by decide +kernel, by decide +kernel⟩
  obtain ⟨hload, hverdict⟩ := loadSettings_verdict hreadable
  have htold : isTold (reading (Text.translateNewlines hugeText)) = true := by decide +kernel
  have hresult : ofOutcome (Location.ofRoute ["p", ".atlas.yml"]).name
      (reading (Text.translateNewlines hugeText)) = .error .hugeThreshold := by decide +kernel
  rw [hresult] at hload
  exact ⟨hload, (hverdict _ htold).huge_iff.mp hresult⟩

end Project

end SourceAtlas
