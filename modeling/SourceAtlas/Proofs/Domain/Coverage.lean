import Mathlib.Data.List.Forall2
import SourceAtlas.Proofs.Domain.Sources
import SourceAtlas.Proofs.Number.Rounding

/-!
# Groups that cover a domain

Groups are ordered by their first file in the whole list. At the highest sensitivity a domain has the
title of the first group that covers enough of its files, and of its directory if no group does. A
smaller threshold asks for fewer files, so it does not take the title of a group away.
-/

namespace SourceAtlas.Domain

open Text Number

variable {files : List SourceFile} {file : SourceFile} {domain : Domain} {group : String}
  {threshold smaller larger : Binary64}

/-- The place of the first file of a group in a list. -/
def firstPlace (files : List SourceFile) (group : String) : Nat :=
  files.findIdx fun file => namingGroup? file.path == some group

/-- The number of files of a domain that belong to a group. -/
def shared (domain : Domain) (group : String) : Nat :=
  domain.files.countP fun file => namingGroup? file.path == some group

/-- A group has some files of a domain, and enough of them for a threshold. -/
structure Covers (threshold : Binary64) (domain : Domain) (group : String) : Prop where
  shares : 1 ≤ shared domain group
  enough : reaches threshold (shared domain group) domain.files.length = true

/-- A group covers a domain, and its first file stands in front of those of the others that do. -/
structure IsFirstCovering (threshold : Binary64) (files : List SourceFile) (domain : Domain)
    (group : String) : Prop where
  covers : Covers threshold domain group
  first : ∀ other, Covers threshold domain other → other ≠ group →
    firstPlace files group < firstPlace files other

/-! ## Different paths -/

theorem sublist_of_mem_infer {sensitivity : Sensitivity}
    (hdomain : domain ∈ infer threshold sensitivity files) : domain.files.Sublist files :=
  (isPartition_of_files (map_files_infer threshold sensitivity files)).inOrder domain hdomain

/-- A domain whose files have different paths is covered by the groups that have enough files. -/
theorem isCovered_iff (hpaths : domain.paths.Nodup) :
    domain.isCovered threshold group = true ↔ Covers threshold domain group := by
  have hsize : domain.size = domain.files.length := by
    rw [size, distinct_eq_self hpaths, paths, List.length_map]
  have hoverlap : domain.overlap group = shared domain group := by
    rw [overlap, distinct_eq_self hpaths, paths, List.countP_map]
    rfl
  rw [isCovered, hsize, hoverlap, Bool.and_eq_true, bne_iff_ne]
  constructor
  · rintro ⟨hsome, henough⟩
    exact ⟨Nat.one_le_iff_ne_zero.mpr hsome, henough⟩
  · rintro ⟨hsome, henough⟩
    exact ⟨Nat.one_le_iff_ne_zero.mp hsome, henough⟩

theorem Covers.exists_file (h : Covers threshold domain group) :
    ∃ file ∈ domain.files, namingGroup? file.path = some group := by
  obtain ⟨file, hfile, hgroup⟩ := List.countP_pos_iff.mp h.shares
  exact ⟨file, hfile, eq_of_beq hgroup⟩

/-! ## The first group that is found -/

theorem firstPlace_cons_of_eq (h : namingGroup? file.path = some group) (rest : List SourceFile) :
    firstPlace (file :: rest) group = 0 := by
  rw [firstPlace, List.findIdx_cons, h, beq_self_eq_true, cond_true]

theorem firstPlace_cons_of_ne (h : namingGroup? file.path ≠ some group) (rest : List SourceFile) :
    firstPlace (file :: rest) group = firstPlace rest group + 1 := by
  rw [firstPlace, List.findIdx_cons, beq_eq_false_iff_ne.mpr h, cond_false, firstPlace]

/-- Of the groups that pass a test, the one that is found has its first file in front of those of
the others. -/
theorem find?_namingGroups {p : String → Bool} (h : (namingGroups files).find? p = some group) :
    p group = true ∧ ∀ other, p other = true → other ≠ group →
      firstPlace files group < firstPlace files other := by
  rw [namingGroups, find?_distinct] at h
  refine ⟨List.find?_some h, fun other hother hne => ?_⟩
  induction files with
  | nil => cases h
  | cons file rest ih =>
      rw [List.filterMap_cons] at h
      cases hfile : namingGroup? file.path with
      | none =>
          rw [hfile] at h
          rw [firstPlace_cons_of_ne (by simp [hfile]), firstPlace_cons_of_ne (by simp [hfile])]
          exact Nat.succ_lt_succ (ih h)
      | some first =>
          rw [hfile] at h
          dsimp only at h
          rw [List.find?_cons] at h
          cases hp : p first with
          | true =>
              rw [hp] at h
              obtain rfl : first = group := Option.some.inj h
              rw [firstPlace_cons_of_eq hfile, firstPlace_cons_of_ne (by simp [hfile, hne.symm])]
              exact Nat.succ_pos _
          | false =>
              -- Neither of the two groups is the one of this file, since they pass the test.
              rw [hp] at h
              have hpasses : ∀ {passing : String}, p passing = true →
                  namingGroup? file.path ≠ some passing := by
                rintro passing hpassing hsame
                rw [hfile, Option.some.injEq] at hsame
                rw [hsame, hpassing] at hp
                cases hp
              rw [firstPlace_cons_of_ne (hpasses (List.find?_some h)),
                firstPlace_cons_of_ne (hpasses hother)]
              exact Nat.succ_lt_succ (ih h)

/-- The files of a domain have one key. The domain has the title of the first group that covers it,
or of the key if none does. -/
theorem name_of_mem_high (hpaths : (files.map (·.path)).Nodup)
    (hdomain : domain ∈ infer threshold .high files) :
    ∃ key, (∀ file ∈ domain.files, directoryKey file.path = key) ∧
      ((∃ group, IsFirstCovering threshold files domain group ∧ domain.name = titleCase group) ∨
        ((∀ group, ¬ Covers threshold domain group) ∧ domain.name = titleCase key)) := by
  have hpartition := isPartition_of_files (map_files_infer threshold .high files)
  have hsub := sublist_of_mem_infer hdomain
  have hcovered : ∀ group, domain.isCovered threshold group = true ↔ Covers threshold domain group :=
    fun group => isCovered_iff (hpaths.sublist (hsub.map _))
  obtain ⟨file, hfile⟩ := exists_file_of_mem_infer hdomain
  refine ⟨directoryKey file.path, fun other hother => ?_, ?_⟩
  · exact (hpartition.together other (hsub.subset hother) file (hsub.subset hfile)).mp
      ⟨domain, hdomain, hother, hfile⟩
  have hname := name_of_mem_infer_high hdomain hfile
  cases hfind : (namingGroups files).find? (domain.isCovered threshold) with
  | some group =>
      rw [hfind] at hname
      obtain ⟨hgroup, hfirst⟩ := find?_namingGroups hfind
      exact .inl ⟨group, ⟨(hcovered group).mp hgroup, fun other hother =>
        hfirst other ((hcovered other).mpr hother)⟩, hname⟩
  | none =>
      rw [hfind] at hname
      refine .inr ⟨fun group hcovers => ?_, hname⟩
      obtain ⟨member, hmember, hgroup⟩ := hcovers.exists_file
      exact List.find?_eq_none.mp hfind group
        (mem_namingGroups.mpr ⟨member, hsub.subset hmember, hgroup⟩) ((hcovered group).mpr hcovers)

/-! ## Smaller thresholds -/

theorem Covers.of_le (h : Covers larger domain group) (hle : smaller.le larger = true) :
    Covers smaller domain group where
  shares := h.shares
  enough := by
    have hsize : 0 < domain.files.length :=
      Nat.lt_of_lt_of_le h.shares List.countP_le_length
    exact Binary64.leInt_mul_mono (Binary64.isPositive_ofNat hsize) hle h.enough

theorem Covers.of_files {before after : Domain} (h : Covers threshold before group)
    (hfiles : after.files = before.files) : Covers threshold after group where
  shares := by
    unfold shared
    rw [hfiles]
    exact h.shares
  enough := by
    unfold shared
    rw [hfiles]
    exact h.enough

/-- At the highest sensitivity a domain has the title of the first group that covers it, or else of
the directory of its files. Under a smaller threshold the same domains are there, and those that a
group gives its title to are among those that a group gives its title to. -/
theorem infer_namedAfterFirst (threshold : Binary64) (hpaths : (files.map (·.path)).Nodup) :
    (∀ domain ∈ infer threshold .high files,
      ∃ key, (∀ file ∈ domain.files, directoryKey file.path = key) ∧
        ((∃ group, IsFirstCovering threshold files domain group ∧ domain.name = titleCase group) ∨
          ((∀ group, ¬ Covers threshold domain group) ∧ domain.name = titleCase key))) ∧
    ∀ smaller : Binary64, smaller.le threshold = true →
      List.Forall₂ (fun before after => after.files = before.files ∧
          ((∃ group, Covers threshold before group) → ∃ group, Covers smaller after group))
        (infer threshold .high files) (infer smaller .high files) := by
  refine ⟨fun domain => name_of_mem_high hpaths, fun smaller hle => ?_⟩
  rw [infer_eq_map, infer_eq_map, List.forall₂_map_left_iff, List.forall₂_map_right_iff,
    List.forall₂_same]
  intro lower _
  have hfiles : (refined smaller .high files lower).files =
      (refined threshold .high files lower).files := by
    rw [files_refined, files_refined]
  exact ⟨hfiles, fun ⟨group, hcovers⟩ => ⟨group, (hcovers.of_le hle).of_files hfiles⟩⟩

/-- Two managers in one directory. -/
def managers : List SourceFile :=
  ["src/main/session-manager.ts", "src/main/theme-manager.ts"].map fun path =>
    { path := path, location := "/p/" ++ path, language := .typescript, lineCount := 9,
      sizeBytes := 90 }

/-- Both groups cover half of the domain, and it has the title of the one that comes first. -/
theorem infer_namedAfterFirst_managers :
    (managers.map (·.path)).Nodup ∧
      ∃ domain ∈ infer (.ofRatio false 1 2) .high managers, domain.name = "Session" := by
  have hpaths : (managers.map (·.path)).Nodup := by decide +kernel
  obtain ⟨domain, hdomain, hall⟩ := exists_domain_around (.ofRatio false 1 2) .high
    (List.head_mem (l := managers) (by decide))
  have hfiles : domain.files = managers := by
    rw [hall]
    decide +kernel
  have hsession : Covers (.ofRatio false 1 2) domain "session" := by
    constructor
    · unfold shared
      rw [hfiles]
      decide +kernel
    · unfold shared
      rw [hfiles]
      decide +kernel
  obtain ⟨key, -, ⟨group, hfirst, hname⟩ | ⟨hnone, -⟩⟩ :=
    (infer_namedAfterFirst (.ofRatio false 1 2) hpaths).1 domain hdomain
  · have hgroup : group = "session" := by
      by_contra hne
      have hbefore := hfirst.first "session" hsession (Ne.symm hne)
      have hplace : firstPlace managers "session" = 0 := by decide +kernel
      omega
    exact ⟨hpaths, domain, hdomain, by rw [hname, hgroup]; decide +kernel⟩
  · exact absurd hsession (hnone "session")

end SourceAtlas.Domain
