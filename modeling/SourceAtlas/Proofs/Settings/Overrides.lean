import SourceAtlas.Proofs.Grouping
import SourceAtlas.Proofs.Settings.Values

/-!
# Overrides in a row

An override that is accepted puts its values in the place of the old ones and appends its patterns,
those that are new. So two overrides in a row come to one, and a run of overrides comes to the one
made of those that are accepted; a refused override leaves the settings as they are.
-/

namespace SourceAtlas

theorem Sensitivity.lower_name (level : Sensitivity) : Text.lower level.name = level.name := by
  cases level <;> decide

namespace Settings

variable {settings middle last result : Settings} {overrides first second : Overrides}
  {old patterns : List String}

/-! ## Patterns -/

/-- The new ones among patterns, each once and in the order of their first places. -/
structure AreAdded (old patterns added : List String) : Prop where
  once : added.Nodup
  mem_iff : ∀ pattern, pattern ∈ added ↔ pattern ∈ patterns ∧ pattern ∉ old
  inOrder : added.Pairwise fun a b => patterns.idxOf a < patterns.idxOf b

theorem areAdded_distinctFrom (old patterns : List String) :
    AreAdded old patterns (distinctFrom old patterns) where
  once := nodup_distinctFrom old patterns
  mem_iff _ := mem_distinctFrom
  inOrder := pairwise_distinctFrom old patterns

theorem addExcludes_eq (old patterns : List String) :
    addExcludes old patterns = old ++ distinctFrom old patterns := by
  induction patterns generalizing old with
  | nil => exact (List.append_nil old).symm
  | cons pattern rest ih =>
      have hstep : addExcludes old (pattern :: rest) =
          addExcludes (addExclude old pattern) rest := rfl
      rw [hstep, ih, distinctFrom, addExclude]
      split
      · rfl
      · have hmet : ∀ other, other ∈ old ++ [pattern] ↔ other ∈ pattern :: old := fun other => by
          rw [List.mem_append, List.mem_singleton, List.mem_cons, or_comm]
        rw [List.append_assoc, distinctFrom_congr rest hmet]
        rfl

theorem mem_addExcludes {pattern : String} :
    pattern ∈ addExcludes old patterns ↔ pattern ∈ old ∨ pattern ∈ patterns := by
  rw [addExcludes_eq, List.mem_append, mem_distinctFrom]
  by_cases h : pattern ∈ old <;> simp [h]

theorem addExcludes_append (old patterns others : List String) :
    addExcludes old (patterns ++ others) = addExcludes (addExcludes old patterns) others :=
  List.foldl_append

/-! ## One override -/

/-- The settings hold what the override gives, and else what was there before. -/
structure IsOverridden (settings : Settings) (overrides : Overrides) (result : Settings) :
    Prop where
  tags : (result.maxTags : Int) = overrides.maxTags.getD settings.maxTags
  level : result.sensitivity.name =
    Text.lower (overrides.sensitivity.getD settings.sensitivity.name)
  excludes : result.excludes = addExcludes settings.excludes overrides.excludes
  threshold : result.threshold = settings.threshold
  share : IsShare settings.threshold

theorem withOverrides_eq_ok_iff :
    settings.withOverrides overrides = .ok result ↔ IsOverridden settings overrides result := by
  unfold withOverrides
  rw [build_eq_ok_iff]
  exact ⟨fun ⟨htags, hlevel, hexcludes, hthreshold, hshare⟩ =>
      ⟨htags, hlevel, hexcludes, hthreshold, hshare⟩,
    fun h => ⟨h.tags, h.level, h.excludes, h.threshold, h.share⟩⟩

/-- The override gives no unknown level and no negative number. -/
structure IsAcceptable (overrides : Overrides) : Prop where
  level : ∀ name, overrides.sensitivity = some name → Text.lower name ∈ Sensitivity.names
  tags : ∀ count, overrides.maxTags = some count → 0 ≤ count

instance (overrides : Overrides) : Decidable (IsAcceptable overrides) :=
  decidable_of_iff ((∀ name ∈ overrides.sensitivity, Text.lower name ∈ Sensitivity.names) ∧
      ∀ count ∈ overrides.maxTags, 0 ≤ count)
    ⟨fun ⟨hlevel, htags⟩ => ⟨hlevel, htags⟩, fun h => ⟨h.level, h.tags⟩⟩

theorem mem_names_iff {name : String} :
    name ∈ Sensitivity.names ↔ ∃ level : Sensitivity, level.name = name := by
  constructor
  · intro h
    simp only [Sensitivity.names, List.mem_cons, List.not_mem_nil, or_false] at h
    rcases h with rfl | rfl | rfl
    · exact ⟨.low, rfl⟩
    · exact ⟨.medium, rfl⟩
    · exact ⟨.high, rfl⟩
  · rintro ⟨level, rfl⟩
    cases level <;> decide

/-- Valid settings are overridden exactly by what is acceptable. -/
theorem exists_overridden_iff (hshare : IsShare settings.threshold) :
    (∃ result, settings.withOverrides overrides = .ok result) ↔ IsAcceptable overrides := by
  simp only [withOverrides_eq_ok_iff]
  constructor
  · rintro ⟨result, h⟩
    refine ⟨fun name hname => ?_, fun count hcount => ?_⟩
    · have hlevel := h.level
      rw [hname] at hlevel
      exact mem_names_iff.mpr ⟨_, hlevel⟩
    · have htags := h.tags
      rw [hcount, Option.getD_some] at htags
      exact htags ▸ Int.natCast_nonneg _
  · rintro ⟨hlevel, htags⟩
    obtain ⟨level, hname⟩ : ∃ level : Sensitivity, level.name =
        Text.lower (overrides.sensitivity.getD settings.sensitivity.name) := by
      cases hgiven : overrides.sensitivity with
      | none => exact ⟨_, (Sensitivity.lower_name _).symm⟩
      | some name => exact mem_names_iff.mp (hlevel name hgiven)
    have hcount : 0 ≤ overrides.maxTags.getD (settings.maxTags : Int) := by
      cases hgiven : overrides.maxTags with
      | none => exact Int.natCast_nonneg _
      | some count => exact htags count hgiven
    exact ⟨⟨(overrides.maxTags.getD settings.maxTags).toNat, level,
      addExcludes settings.excludes overrides.excludes, settings.threshold⟩,
      Int.toNat_of_nonneg hcount, hname, rfl, rfl, hshare⟩

/-! ## Overrides in a row -/

/-- One override in place of two: what the later one gives counts, and else what the earlier one
gives. -/
def Overrides.andThen (first second : Overrides) : Overrides where
  maxTags := second.maxTags.or first.maxTags
  sensitivity := second.sensitivity.or first.sensitivity
  excludes := first.excludes ++ second.excludes

theorem IsOverridden.refl (hshare : IsShare settings.threshold) :
    IsOverridden settings {} settings :=
  ⟨rfl, (Sensitivity.lower_name _).symm, rfl, rfl, hshare⟩

theorem IsOverridden.trans (hfirst : IsOverridden settings first middle)
    (hsecond : IsOverridden middle second last) :
    IsOverridden settings (first.andThen second) last where
  tags := by
    rw [hsecond.tags, hfirst.tags, Overrides.andThen]
    cases second.maxTags <;> rfl
  level := by
    rw [hsecond.level, Overrides.andThen]
    cases second.sensitivity with
    | none => exact (Sensitivity.lower_name _).trans hfirst.level
    | some name => rfl
  excludes := by
    rw [hsecond.excludes, hfirst.excludes, Overrides.andThen, addExcludes_append]
  threshold := hsecond.threshold.trans hfirst.threshold
  share := hfirst.share

/-- The settings after an override; one that is refused leaves them as they are. -/
def after (settings : Settings) (overrides : Overrides) : Settings :=
  match settings.withOverrides overrides with
  | .ok result => result
  | .error _ => settings

/-- The settings after a run of overrides. -/
def afterAll (settings : Settings) (run : List Overrides) : Settings := run.foldl after settings

/-- One override in place of a run of them. -/
def Overrides.ofRun (run : List Overrides) : Overrides := run.foldl Overrides.andThen {}

theorem isOverridden_after (hshare : IsShare settings.threshold) (h : IsAcceptable overrides) :
    IsOverridden settings overrides (settings.after overrides) := by
  obtain ⟨result, hresult⟩ := (exists_overridden_iff hshare).mpr h
  rw [after, hresult]
  exact withOverrides_eq_ok_iff.mp hresult

theorem after_of_not_isAcceptable (hshare : IsShare settings.threshold)
    (h : ¬ IsAcceptable overrides) : settings.after overrides = settings := by
  unfold after
  split
  · next result hresult => exact absurd ((exists_overridden_iff hshare).mp ⟨result, hresult⟩) h
  · rfl

/-- A run of overrides comes to the one made of those in it that are acceptable. -/
theorem isOverridden_afterAll (hshare : IsShare settings.threshold) (run : List Overrides) :
    IsOverridden settings (.ofRun (run.filter fun overrides => decide (IsAcceptable overrides)))
      (settings.afterAll run) := by
  induction run using List.reverseRecOn with
  | nil => exact .refl hshare
  | append_singleton run overrides ih =>
      have hshare' : IsShare (settings.afterAll run).threshold := ih.threshold ▸ hshare
      have hrun : settings.afterAll (run ++ [overrides]) =
          (settings.afterAll run).after overrides := List.foldl_concat ..
      rw [hrun, List.filter_append]
      by_cases h : IsAcceptable overrides
      · have hkept : [overrides].filter (fun overrides => decide (IsAcceptable overrides)) =
            [overrides] := by simp [h]
        rw [hkept, Overrides.ofRun, List.foldl_concat]
        exact ih.trans (isOverridden_after hshare' h)
      · have hdropped :
            [overrides].filter (fun overrides => decide (IsAcceptable overrides)) = [] := by simp [h]
        rw [hdropped, List.append_nil, after_of_not_isAcceptable hshare' h]
        exact ih

/-- A known level, a number that is not negative and a share. -/
structure IsValid (settings : Settings) : Prop where
  level : settings.sensitivity.name ∈ Sensitivity.names
  tags : 0 ≤ (settings.maxTags : Int)
  share : IsShare settings.threshold

theorem isValid_of_share (hshare : IsShare settings.threshold) : settings.IsValid :=
  ⟨mem_names_iff.mpr ⟨_, rfl⟩, Int.natCast_nonneg _, hshare⟩

theorem isValid_standard : standard.IsValid :=
  isValid_of_share ((isShare_iff _).mp (by decide +kernel))

/-- Two overrides in a row come to one, which leaves the settings valid, keeps the threshold and the
patterns that are there, and appends those that are new. What is refused leaves valid settings as
they are, so a run of overrides comes to the acceptable ones in it. -/
theorem withOverrides_compose (hvalid : settings.IsValid) :
    (∀ first second middle last, settings.withOverrides first = .ok middle →
      middle.withOverrides second = .ok last →
        settings.withOverrides (first.andThen second) = .ok last ∧ last.IsValid ∧
          last.threshold = settings.threshold ∧
          ∃ added, last.excludes = settings.excludes ++ added ∧
            AreAdded settings.excludes (first.excludes ++ second.excludes) added) ∧
    (∀ overrides failure, settings.withOverrides overrides = .error failure →
      ¬ IsAcceptable overrides ∧ settings.after overrides = settings) ∧
    ∀ run : List Overrides, settings.withOverrides
      (.ofRun (run.filter fun overrides => decide (IsAcceptable overrides))) =
        .ok (settings.afterAll run) := by
  refine ⟨fun first second middle last hmiddle hlast => ?_, fun overrides failure hfailure => ?_,
    fun run => withOverrides_eq_ok_iff.mpr (isOverridden_afterAll hvalid.share run)⟩
  · have hboth := (withOverrides_eq_ok_iff.mp hmiddle).trans (withOverrides_eq_ok_iff.mp hlast)
    refine ⟨withOverrides_eq_ok_iff.mpr hboth, isValid_of_share (hboth.threshold ▸ hvalid.share),
      hboth.threshold, _, hboth.excludes.trans (addExcludes_eq _ _), areAdded_distinctFrom _ _⟩
  · have hrefused : ¬ IsAcceptable overrides := fun h => by
      obtain ⟨result, hresult⟩ := (exists_overridden_iff hvalid.share).mpr h
      rw [hresult] at hfailure
      cases hfailure
    exact ⟨hrefused, after_of_not_isAcceptable hvalid.share hrefused⟩

/-- The level of the first override and the number of the second one count, and the pattern of both
is appended once. -/
theorem withOverrides_compose_standard :
    standard.IsValid ∧
    standard.withOverrides { sensitivity := some "HIGH", excludes := ["a", "b"] } =
      .ok ⟨20, .high, ["a", "b"], defaultThreshold⟩ ∧
    standard.withOverrides
        { maxTags := some 0, sensitivity := some "HIGH", excludes := ["a", "b", "c", "b"] } =
      .ok ⟨0, .high, ["a", "b", "c"], defaultThreshold⟩ := by
  have hfirst : standard.withOverrides { sensitivity := some "HIGH", excludes := ["a", "b"] } =
      .ok ⟨20, .high, ["a", "b"], defaultThreshold⟩ := by decide +kernel
  have hsecond : (⟨20, .high, ["a", "b"], defaultThreshold⟩ : Settings).withOverrides
      { maxTags := some 0, excludes := ["c", "b"] } =
        .ok ⟨0, .high, ["a", "b", "c"], defaultThreshold⟩ := by decide +kernel
  exact ⟨isValid_standard, hfirst, ((withOverrides_compose isValid_standard).1 _ _ _ _ hfirst hsecond).1⟩

end Settings

end SourceAtlas
