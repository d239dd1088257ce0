import SourceAtlas.Proofs.Domain.Names
import SourceAtlas.Proofs.Text.OneLine
import SourceAtlas.Tag.Proposal

/-!
# What domains are named after

The domain of a file is named after the directory key of the file or, when groups give names, after
the first group that covers the domain. Both come from paths, character by character, so a domain
has a line break in its name exactly if there is one in what it is named after.
-/

namespace SourceAtlas.Domain

open Text

variable {files : List SourceFile} {file : SourceFile} {domain : Domain} {path group : String}
  {threshold : Number.Binary64} {sensitivity : Sensitivity}

/-! ## Groups -/

theorem nameBefore?_eq_some {endings : List String} {text name : List Char}
    (h : nameBefore? endings text = some name) : name ≠ [] ∧ name <+: text := by
  unfold nameBefore? at h
  rw [Option.filter_eq_some_iff] at h
  obtain ⟨hfound, hplain⟩ := h
  obtain ⟨ending, -, hend⟩ := List.exists_of_findSome?_eq_some hfound
  constructor
  · rintro rfl
    cases hplain
  · exact dropEnd?_eq_some_iff.mp hend ▸ List.prefix_append _ _

theorem dropFinalBreak_subset (name : List Char) : dropFinalBreak name ⊆ name := by
  unfold dropFinalBreak
  split
  · exact List.dropLast_subset name
  · exact List.Subset.refl name

theorem uncapitalize_ne_nil {name : List Char} (h : name ≠ []) : uncapitalize name ≠ [] := by
  cases name with
  | nil => exact absurd rfl h
  | cons c rest =>
      have hlower : lowerChar c ≠ [] := by
        unfold lowerChar
        split
        · exact List.cons_ne_nil _ _
        · split <;> exact List.cons_ne_nil _ _
      exact List.append_ne_nil_of_left_ne_nil hlower rest

theorem managerGroup?_eq_some {fileName name : List Char} (h : managerGroup? fileName = some name) :
    name ≠ [] ∧ (IsOneLine fileName → IsOneLine name) := by
  obtain ⟨hne, hsub⟩ := nameBefore?_eq_some h
  have hall : name ⊆ fileName := List.Subset.trans hsub.subset (dropFinalBreak_subset fileName)
  exact ⟨hne, fun hline => hline.of_subset hall⟩

theorem hookGroup?_eq_some {fileName name : List Char} (h : hookGroup? fileName = some name) :
    name ≠ [] ∧ (IsOneLine fileName → IsOneLine name) := by
  obtain ⟨hook, hhook, rfl⟩ := Option.map_eq_some_iff.mp h
  obtain ⟨rest, hrest, hname⟩ := Option.bind_eq_some_iff.mp hhook
  obtain ⟨hne, hsub⟩ := nameBefore?_eq_some hname
  refine ⟨uncapitalize_ne_nil hne, fun hline => isOneLine_uncapitalize.mpr ?_⟩
  have hbehind : rest ⊆ dropFinalBreak fileName := by
    rw [dropStart?_eq_some_iff.mp hrest]
    exact List.subset_append_right _ _
  have hall : rest ⊆ fileName := List.Subset.trans hbehind (dropFinalBreak_subset fileName)
  exact hline.of_subset (List.Subset.trans hsub.subset hall)

theorem lastSegment_subset (path : List Char) : Path.lastSegment path ⊆ path := by
  have hback : Path.lastSegment path ⊆ Path.beforeLastSegment path ++ Path.lastSegment path :=
    List.subset_append_right _ _
  rwa [Path.beforeLastSegment_append_lastSegment] at hback

/-- A group has a name, and one of one line if the path of its file is one line. -/
theorem namingGroup?_eq_some (h : namingGroup? path = some group) :
    group ≠ "" ∧ (IsOneLine path.toList → IsOneLine group.toList) := by
  unfold namingGroup? at h
  obtain ⟨name, hname, rfl⟩ := Option.map_eq_some_iff.mp h
  have hgroup : name ≠ [] ∧ (IsOneLine (Path.lastSegment path.toList) → IsOneLine name) := by
    cases hhook : hookGroup? (Path.lastSegment path.toList) with
    | some hook =>
        rw [hhook] at hname
        cases hname
        exact hookGroup?_eq_some hhook
    | none =>
        rw [hhook] at hname
        exact managerGroup?_eq_some hname
  refine ⟨by simpa using hgroup.1, fun hline => ?_⟩
  rw [String.toList_ofList]
  exact hgroup.2 (hline.of_subset (lastSegment_subset _))

theorem mem_namingGroups : group ∈ namingGroups files ↔
    ∃ file ∈ files, namingGroup? file.path = some group := by
  rw [namingGroups, mem_distinct, List.mem_filterMap]

/-! ## The name of the domain of a file -/

/-- The files with the key of a path, as a domain. -/
def around (files : List SourceFile) (path : String) : Domain :=
  ofGroup (directoryKey path) (files.filter fun file => keyOf file = directoryKey path)

/-- What the domain of a path is named after: at the highest sensitivity the first group that covers
the domain, and else its directory key. -/
def namedAfter (threshold : Number.Binary64) (sensitivity : Sensitivity) (files : List SourceFile)
    (path : String) : String :=
  match sensitivity with
  | .low | .medium => directoryKey path
  | .high =>
      ((namingGroups files).find? ((around files path).isCovered threshold)).getD
        (directoryKey path)

/-- A domain at the sensitivity, given the one by directory. -/
def refined (threshold : Number.Binary64) (sensitivity : Sensitivity) (files : List SourceFile)
    (domain : Domain) : Domain :=
  match sensitivity with
  | .low => domain
  | .medium => withChannels domain
  | .high => withGroupName threshold (namingGroups files) (withChannels domain)

theorem infer_eq_map (threshold : Number.Binary64) (sensitivity : Sensitivity)
    (files : List SourceFile) :
    infer threshold sensitivity files =
      (byDirectory files).map (refined threshold sensitivity files) := by
  cases sensitivity with
  | low => exact (List.map_id _).symm
  | medium => rfl
  | high => exact List.map_map

theorem files_refined (threshold : Number.Binary64) (sensitivity : Sensitivity)
    (files : List SourceFile) (domain : Domain) :
    (refined threshold sensitivity files domain).files = domain.files := by
  have hchannels := (alike_withChannels domain).files_eq
  cases sensitivity with
  | low => rfl
  | medium => exact hchannels
  | high =>
      exact (alike_withGroupName threshold (namingGroups files) (withChannels domain)).files_eq.trans
        hchannels

theorem paths_refined (threshold : Number.Binary64) (sensitivity : Sensitivity)
    (files : List SourceFile) (domain : Domain) :
    (refined threshold sensitivity files domain).paths = domain.paths :=
  congrArg (List.map _) (files_refined threshold sensitivity files domain)

theorem name_withGroupName {groups : List String} (hgroups : ∀ group ∈ groups, group ≠ "") :
    (withGroupName threshold groups domain).name =
      ((groups.find? (domain.isCovered threshold)).map titleCase).getD domain.name := by
  unfold withGroupName
  split
  · next group hfind =>
    have hne := hgroups group (List.mem_of_find?_eq_some hfind)
    have htitle : (titleCase group).isEmpty = false := by
      simpa [titleCase_eq_empty_iff] using hne
    simp [hfind, htitle]
  · next hfind => simp [hfind]

theorem isCovered_congr {first second : Domain} (h : first.paths = second.paths)
    (threshold : Number.Binary64) : first.isCovered threshold = second.isCovered threshold := by
  unfold isCovered overlap size
  rw [h]

theorem name_refined (threshold : Number.Binary64) (sensitivity : Sensitivity)
    (files : List SourceFile) (path : String) :
    (refined threshold sensitivity files (around files path)).name =
      titleCase (namedAfter threshold sensitivity files path) := by
  cases sensitivity with
  | low => rfl
  | medium => exact name_withChannels _
  | high =>
      have hgroups : ∀ group ∈ namingGroups files, group ≠ "" := by
        intro group hgroup
        obtain ⟨file, -, hfile⟩ := mem_namingGroups.mp hgroup
        exact (namingGroup?_eq_some hfile).1
      have hpaths : (withChannels (around files path)).paths = (around files path).paths :=
        paths_refined threshold .medium files (around files path)
      unfold refined namedAfter
      dsimp only
      rw [name_withGroupName hgroups, isCovered_congr hpaths, name_withChannels]
      cases (namingGroups files).find? ((around files path).isCovered threshold) <;> rfl

/-- A domain by directory that has a path is the one of the files with the key of the path. -/
theorem eq_around (hdomain : domain ∈ byDirectory files) (hpath : path ∈ domain.paths) :
    domain = around files path := by
  unfold byDirectory groupByKey at hdomain
  rw [List.mem_mergeSort, List.map_map] at hdomain
  obtain ⟨key, -, rfl⟩ := List.mem_map.mp hdomain
  obtain ⟨file, hfile, rfl⟩ := List.mem_map.mp hpath
  obtain rfl : directoryKey file.path = key := by simpa using (List.mem_filter.mp hfile).2
  rfl

/-- Every domain is the one around each of its files. -/
theorem eq_refined_around (hdomain : domain ∈ infer threshold sensitivity files)
    (hfile : file ∈ domain.files) :
    domain = refined threshold sensitivity files (around files file.path) := by
  rw [infer_eq_map] at hdomain
  obtain ⟨lower, hlower, rfl⟩ := List.mem_map.mp hdomain
  have hpath : file.path ∈ (refined threshold sensitivity files lower).paths :=
    List.mem_map_of_mem hfile
  rw [paths_refined] at hpath
  rw [← eq_around hlower hpath]

theorem exists_domain_around (threshold : Number.Binary64) (sensitivity : Sensitivity)
    (hfile : file ∈ files) :
    ∃ domain ∈ infer threshold sensitivity files, domain.files = (around files file.path).files := by
  obtain ⟨domain, hdomain, hin⟩ := exists_domain (map_files_infer threshold sensitivity files) hfile
  exact ⟨domain, hdomain, by rw [eq_refined_around hdomain hin, files_refined]⟩

theorem name_of_mem_infer (hdomain : domain ∈ infer threshold sensitivity files)
    (hfile : file ∈ domain.files) :
    domain.name = titleCase (namedAfter threshold sensitivity files file.path) := by
  rw [eq_refined_around hdomain hfile, name_refined]

theorem name_of_mem_infer_high (hdomain : domain ∈ infer threshold .high files)
    (hfile : file ∈ domain.files) :
    domain.name = titleCase (((namingGroups files).find? (domain.isCovered threshold)).getD
      (directoryKey file.path)) := by
  have hpaths : (around files file.path).paths = domain.paths := by
    conv_rhs => rw [eq_refined_around hdomain hfile, paths_refined]
  rw [name_of_mem_infer hdomain hfile, namedAfter, isCovered_congr hpaths]

theorem find?_byDirectory (h : file ∈ files) :
    (byDirectory files).find? (fun domain => domain.paths.contains file.path) =
      some (around files file.path) := by
  obtain ⟨domain, hdomain, hin⟩ := exists_domain (map_files_byDirectory files) h
  have hfound : ((byDirectory files).find?
      fun domain => domain.paths.contains file.path).isSome := by
    rw [List.find?_isSome]
    exact ⟨domain, hdomain, List.contains_iff_mem.mpr (List.mem_map_of_mem hin)⟩
  obtain ⟨first, hfirst⟩ := Option.isSome_iff_exists.mp hfound
  have hpath := List.find?_some hfirst
  rw [hfirst, eq_around (List.mem_of_find?_eq_some hfirst) (List.contains_iff_mem.mp hpath)]

/-- The domain of a file has the title of what it is named after. -/
theorem domainName?_infer (threshold : Number.Binary64) (sensitivity : Sensitivity)
    (h : file ∈ files) :
    InlineTag.domainName? (infer threshold sensitivity files) file.path =
      some (titleCase (namedAfter threshold sensitivity files file.path)) := by
  have hpaths : ((fun domain : Domain => domain.paths.contains file.path) ∘
      refined threshold sensitivity files) = fun domain => domain.paths.contains file.path := by
    funext domain
    rw [Function.comp_apply, paths_refined]
  unfold InlineTag.domainName?
  rw [infer_eq_map, List.find?_map, hpaths, find?_byDirectory h, Option.map_some, Option.map_some,
    name_refined]

/-! ## Line breaks in names -/

theorem isOneLine_segment {path segment : String} (h : IsOneLine path.toList)
    (hsegment : segment ∈ Path.segments path) : IsOneLine segment.toList := by
  obtain ⟨part, hpart, rfl⟩ := List.mem_map.mp hsegment
  have hslash : Tag.isBreak '/' = false := rfl
  have hparts : ∀ part ∈ split '/' path.toList, IsOneLine part := by
    rwa [← isOneLine_join hslash, join_split]
  rw [String.toList_ofList]
  exact hparts part hpart

/-- Where no path has a line break, there is none in what domains are named after. -/
theorem isOneLine_namedAfter (hpaths : ∀ file ∈ files, IsOneLine file.path.toList)
    (h : IsOneLine path.toList) :
    IsOneLine (namedAfter threshold sensitivity files path).toList := by
  have hkey : IsOneLine (directoryKey path).toList := by
    rcases directoryKey_cases path with hroot | hsegment
    · rw [hroot]
      decide
    · exact isOneLine_segment h hsegment
  cases sensitivity with
  | low | medium => exact hkey
  | high =>
      unfold namedAfter
      dsimp only
      cases hfind : (namingGroups files).find? ((around files path).isCovered threshold) with
      | none => exact hkey
      | some group =>
          obtain ⟨file, hfile, hgroup⟩ :=
            mem_namingGroups.mp (List.mem_of_find?_eq_some hfind)
          exact (namingGroup?_eq_some hgroup).2 (hpaths file hfile)

end SourceAtlas.Domain
