import SourceAtlas.Proofs.Number.Limits
import SourceAtlas.Proofs.Outcome
import SourceAtlas.Settings.File

/-!
# Values of settings

A value of a file is converted to the type of its key. Only integers fail to be converted: one of
too many digits is no text, one beyond the doubles is no double. Loose values make settings if the
level is known, the number of tags is not negative and the threshold is a share.
-/

namespace SourceAtlas

theorem Sensitivity.ofName?_eq_some_iff {name : String} {level : Sensitivity} :
    Sensitivity.ofName? name = some level ↔ level.name = name := by
  constructor
  · intro h
    unfold Sensitivity.ofName? at h
    split at h <;> cases h <;> rfl
  · rintro rfl
    cases level <;> rfl

namespace Settings

open Outcome

theorem textOf?_eq_error_iff {value : Yaml.Value} {failure : LoadError} :
    textOf? value = .error failure ↔
      failure = .longSensitivity ∧ ∃ n, value = .int n ∧ Number.IsLong n := by
  constructor
  · intro h
    unfold textOf? at h
    split at h
    · cases h
    · next n =>
        split at h
        · cases h
        · next hnone =>
            cases h
            exact ⟨rfl, n, rfl, (Number.showInteger?_eq_none_iff n).mp hnone⟩
    · cases h
    · cases h
  · rintro ⟨rfl, n, rfl, hlong⟩
    simp only [textOf?, (Number.showInteger?_eq_none_iff n).mpr hlong]

theorem finiteDouble_eq_error_iff {x : Number.Binary64} {failure : LoadError} :
    finiteDouble x = .error failure ↔ failure = .hugeThreshold ∧ ∃ sign, x = .infinite sign := by
  constructor
  · intro h
    cases x with
    | infinite sign =>
        cases h
        exact ⟨rfl, sign, rfl⟩
    | _ => cases h
  · rintro ⟨rfl, sign, rfl⟩
    rfl

theorem doubleOf?_eq_error_iff {value : Yaml.Value} {failure : LoadError} :
    doubleOf? value = .error failure ↔
      failure = .hugeThreshold ∧ ∃ n, value = .int n ∧ Number.IsHuge n := by
  unfold doubleOf?
  simp only [← Number.Binary64.ofInt_infinite_iff]
  constructor
  · intro h
    split at h
    · next n =>
        obtain ⟨hfailure, hinfinite⟩ := finiteDouble_eq_error_iff.mp h
        exact ⟨hfailure, n, rfl, hinfinite⟩
    · cases h
    · cases h
    · cases h
  · rintro ⟨hfailure, n, rfl, hinfinite⟩
    exact finiteDouble_eq_error_iff.mpr ⟨hfailure, hinfinite⟩

theorem patternOf?_eq_error {value : Yaml.Value} {failure : LoadError}
    (h : patternOf? value = .error failure) : failure = .refused .longPattern := by
  unfold patternOf? at h
  split at h
  · cases h
  · split at h
    · cases h
    · cases h
      rfl
  · cases h
  · cases h
  · cases h
  · cases h

/-- What keeps patterns from being read is always told as a refusal. -/
theorem patternsOf_eq_error {value : Yaml.Value} {failure : LoadError}
    (h : patternsOf value = .error failure) : failure = .refused .longPattern := by
  unfold patternsOf at h
  split at h
  · cases h
  · next items =>
      cases hitems : items.mapM patternOf? with
      | ok found =>
          rw [hitems] at h
          cases h
      | error cause =>
          rw [hitems] at h
          cases h
          obtain ⟨item, -, hitem⟩ := exists_of_mapM_eq_error hitems
          exact patternOf?_eq_error hitem
  · cases h
  · cases h

section Share

open Number Number.Binary64

/-- A number above zero and at most one, in exact units. -/
def IsShare (threshold : Binary64) : Prop :=
  ∃ m e, threshold = .finite false m e ∧ 0 < units m e ∧ units m e ≤ unit

theorem isShare_finite (negative : Bool) (m e : Nat) :
    isShare (.finite negative m e) = true ↔
      0 < signedUnits negative m e ∧ signedUnits negative m e ≤ unit := by
  have hzero : Binary64.ofNat 0 = .finite false 0 0 := by decide +kernel
  have hone : Binary64.ofNat 1 = .finite false (twoPow 52) 1022 := by decide +kernel
  have hunits : signedUnits false (twoPow 52) 1022 = (unit : Int) := by
    have hsum : unit = twoPow (52 + 1022) := rfl
    rw [hsum, twoPow_add]
    rfl
  have hnone : signedUnits false 0 0 = 0 := rfl
  unfold isShare
  rw [hzero, hone]
  simp only [Binary64.lt, Binary64.le, hunits, hnone, Bool.and_eq_true, decide_eq_true_eq,
    Bool.not_eq_true', decide_eq_false_iff_not]
  omega

theorem isShare_iff (threshold : Binary64) : isShare threshold = true ↔ IsShare threshold := by
  cases threshold with
  | finite negative m e =>
      rw [isShare_finite]
      cases negative with
      | false =>
          constructor
          · rintro ⟨hpos, hle⟩
            exact ⟨m, e, rfl, Int.natCast_pos.mp hpos, Int.ofNat_le.mp hle⟩
          · rintro ⟨_, _, hfinite, hpos, hle⟩
            cases hfinite
            exact ⟨Int.natCast_pos.mpr hpos, Int.ofNat_le.mpr hle⟩
      | true =>
          refine iff_of_false ?_ (fun ⟨_, _, h, _⟩ => nomatch h)
          rintro ⟨hpos, -⟩
          have hneg : signedUnits true m e = -(units m e : Int) := rfl
          omega
  | infinite negative =>
      refine iff_of_false ?_ (fun ⟨_, _, h, _⟩ => nomatch h)
      cases negative <;> decide +kernel
  | nan => exact iff_of_false (by decide +kernel) (fun ⟨_, _, h, _⟩ => nomatch h)

end Share

theorem build_eq_ok_iff {tags : Int} {name : String} {excludes : List String}
    {threshold : Number.Binary64} {settings : Settings} :
    build tags name excludes threshold = .ok settings ↔
      (settings.maxTags : Int) = tags ∧ settings.sensitivity.name = Text.lower name ∧
        settings.excludes = excludes ∧ settings.threshold = threshold ∧ IsShare threshold := by
  rw [← isShare_iff, ← Sensitivity.ofName?_eq_some_iff]
  constructor
  · intro h
    unfold build at h
    dsimp only at h
    split at h
    · cases h
    · next level hlevel =>
        split at h
        · cases h
        · next htags =>
            split at h
            · next hshare =>
                cases h
                exact ⟨Int.toNat_of_nonneg (Int.not_lt.mp htags), hlevel, rfl, rfl, hshare⟩
            · cases h
  · rintro ⟨rfl, hlevel, rfl, rfl, hshare⟩
    unfold build
    dsimp only
    rw [hlevel]
    dsimp only
    rw [if_neg (by omega), if_pos hshare, Int.toNat_natCast]

end Settings

end SourceAtlas
