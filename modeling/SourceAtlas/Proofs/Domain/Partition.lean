import Mathlib.Data.List.Forall2
import SourceAtlas.Domain.Inference
import SourceAtlas.Proofs.Grouping
import SourceAtlas.Proofs.Sorting

/-!
# Domains partition the files

Which files are in a domain is decided by their directory keys alone. A higher sensitivity attaches
channels to the domains, or names to them, and leaves each one in its place with its files.
-/

namespace SourceAtlas.Domain

/-- The key that decides the domain of a file. -/
def keyOf (file : SourceFile) : String := directoryKey file.path

/-- The domains are a partition of the files by key, the largest domain first. -/
structure IsPartition (files : List SourceFile) (domains : List Domain) : Prop where
  inhabited : ∀ domain ∈ domains, domain.files ≠ []
  /-- No file is lost or doubled. -/
  complete : (domains.flatMap (·.files)).Perm files
  exactlyOne : ∀ file ∈ files, ∃! place : Fin domains.length, file ∈ (domains.get place).files
  together : ∀ first ∈ files, ∀ second ∈ files,
    (∃ domain ∈ domains, first ∈ domain.files ∧ second ∈ domain.files) ↔
      directoryKey first.path = directoryKey second.path
  inOrder : ∀ domain ∈ domains, domain.files.Sublist files
  /-- Domains of one size come in the order in which their keys are met first. -/
  largestFirst : domains.Pairwise fun first second =>
    second.files.length < first.files.length ∨
      (first.files.length = second.files.length ∧
        MetBefore keyOf files first.files second.files)

variable {files : List SourceFile} {domains : List Domain}

/-! ## The files of the domains -/

/-- Order by the number of files, the larger one first. -/
def sizeLe (first second : List SourceFile) : Bool := decide (second.length ≤ first.length)

theorem map_files_byDirectory (files : List SourceFile) :
    (byDirectory files).map (·.files) = (classes keyOf files).mergeSort sizeLe := by
  unfold byDirectory classes
  rw [List.map_mergeSort, List.map_map]
  · rfl
  · intro first _ second _
    rfl

theorem mem_sorted {group : List SourceFile} (h : group ∈ (classes keyOf files).mergeSort sizeLe) :
    ∃ file ∈ files, group = files.filter fun other => keyOf other = keyOf file :=
  mem_classes.mp (List.mem_mergeSort.mp h)

theorem pairwise_sorted (files : List SourceFile) :
    ((classes keyOf files).mergeSort sizeLe).Pairwise fun first second =>
      second.length < first.length ∨
        (first.length = second.length ∧ MetBefore keyOf files first second) := by
  have htrans : ∀ a b c, sizeLe a b = true → sizeLe b c = true → sizeLe a c = true := by
    intro a b c hab hbc
    simp only [sizeLe, decide_eq_true_eq] at *
    omega
  have htotal : ∀ a b, (sizeLe a b || sizeLe b a) = true := by
    intro a b
    simp only [sizeLe, Bool.or_eq_true, decide_eq_true_eq]
    omega
  have hstable := Sorting.pairwise_mergeSort htrans htotal (pairwise_classes keyOf files)
  refine hstable.imp fun {first second} ⟨hle, htied⟩ => ?_
  simp only [sizeLe, decide_eq_true_eq] at hle htied
  rcases Nat.lt_or_eq_of_le hle with hlt | hsame
  · exact .inl hlt
  · exact .inr ⟨hsame.symm, htied (by omega)⟩

/-- Files of different domains have different keys. -/
theorem pairwise_sorted_apart (files : List SourceFile) :
    ((classes keyOf files).mergeSort sizeLe).Pairwise fun first second =>
      ∀ x ∈ first, ∀ y ∈ second, keyOf x ≠ keyOf y := by
  have hsymm : ∀ {first second : List SourceFile},
      (∀ x ∈ first, ∀ y ∈ second, keyOf x ≠ keyOf y) →
        ∀ x ∈ second, ∀ y ∈ first, keyOf x ≠ keyOf y := by
    intro first second h x hx y hy hsame
    exact h y hy x hx hsame.symm
  rw [List.Perm.pairwise_iff hsymm (List.mergeSort_perm _ _)]
  refine (pairwise_classes keyOf files).imp fun {first second} hmet x hx y hy hsame => ?_
  have hlt := hmet x hx y hy
  rw [hsame] at hlt
  exact Nat.lt_irrefl _ hlt

section Files

variable (h : domains.map (·.files) = (classes keyOf files).mergeSort sizeLe)

include h

theorem files_of_mem {domain : Domain} (hdomain : domain ∈ domains) :
    ∃ file ∈ files, ∀ other, other ∈ domain.files ↔ other ∈ files ∧ keyOf other = keyOf file := by
  obtain ⟨file, hfile, heq⟩ := mem_sorted (h ▸ List.mem_map_of_mem hdomain)
  refine ⟨file, hfile, fun other => ?_⟩
  rw [heq, List.mem_filter, decide_eq_true_eq]

theorem flatMap_files_perm : (domains.flatMap (·.files)).Perm files := by
  rw [List.flatMap_def, h]
  exact (List.mergeSort_perm _ _).flatten.trans (flatten_classes_perm keyOf files)

theorem exists_domain {file : SourceFile} (hfile : file ∈ files) :
    ∃ domain ∈ domains, file ∈ domain.files :=
  List.mem_flatMap.mp ((flatMap_files_perm h).mem_iff.mpr hfile)

theorem existsUnique_place {file : SourceFile} (hfile : file ∈ files) :
    ∃! place : Fin domains.length, file ∈ (domains.get place).files := by
  have hapart := pairwise_sorted_apart files
  rw [← h, List.pairwise_map, List.pairwise_iff_getElem] at hapart
  obtain ⟨domain, hdomain, hin⟩ := exists_domain h hfile
  obtain ⟨place, rfl⟩ := List.get_of_mem hdomain
  refine ⟨place, hin, fun other hother => ?_⟩
  rcases Nat.lt_trichotomy other.val place.val with hlt | hsame | hgt
  · exact absurd rfl (hapart _ _ other.isLt place.isLt hlt file hother file hin)
  · exact Fin.ext hsame
  · exact absurd rfl (hapart _ _ place.isLt other.isLt hgt file hin file hother)

theorem together_iff {first second : SourceFile} (hfirst : first ∈ files)
    (hsecond : second ∈ files) :
    (∃ domain ∈ domains, first ∈ domain.files ∧ second ∈ domain.files) ↔
      keyOf first = keyOf second := by
  constructor
  · rintro ⟨domain, hdomain, hin, hin'⟩
    obtain ⟨file, -, hmem⟩ := files_of_mem h hdomain
    exact ((hmem first).mp hin).2.trans ((hmem second).mp hin').2.symm
  · intro hsame
    obtain ⟨domain, hdomain, hin⟩ := exists_domain h hfirst
    obtain ⟨file, -, hmem⟩ := files_of_mem h hdomain
    have hkey := ((hmem first).mp hin).2
    exact ⟨domain, hdomain, hin, (hmem second).mpr ⟨hsecond, hsame.symm.trans hkey⟩⟩

/-- Domains with the files of the classes are a partition. -/
theorem isPartition_of_files : IsPartition files domains where
  inhabited domain hdomain hnil := by
    obtain ⟨file, hfile, hmem⟩ := files_of_mem h hdomain
    have hin := (hmem file).mpr ⟨hfile, rfl⟩
    rw [hnil] at hin
    exact List.not_mem_nil hin
  complete := flatMap_files_perm h
  exactlyOne _ hfile := existsUnique_place h hfile
  together _ hfirst _ hsecond := together_iff h hfirst hsecond
  inOrder domain hdomain := by
    obtain ⟨file, -, heq⟩ := mem_sorted (h ▸ List.mem_map_of_mem hdomain)
    rw [heq]
    exact List.filter_sublist
  largestFirst := by
    have hsorted := pairwise_sorted files
    rw [← h, List.pairwise_map] at hsorted
    exact hsorted

end Files

/-! ## The levels of sensitivity -/

/-- The domains differ in their channels at most. -/
def AlikeButChannels (first second : Domain) : Prop :=
  second = { first with channels := second.channels }

/-- The domains differ in their names at most. -/
def AlikeButName (first second : Domain) : Prop := second = { first with name := second.name }

theorem AlikeButChannels.files_eq {first second : Domain} (h : AlikeButChannels first second) :
    second.files = first.files := by
  unfold AlikeButChannels at h
  rw [h]

theorem AlikeButName.files_eq {first second : Domain} (h : AlikeButName first second) :
    second.files = first.files := by
  unfold AlikeButName at h
  rw [h]

theorem alike_withChannels (domain : Domain) : AlikeButChannels domain (withChannels domain) := by
  unfold AlikeButChannels withChannels
  split <;> rfl

theorem alike_withGroupName (threshold : Number.Binary64) (groups : List String)
    (domain : Domain) : AlikeButName domain (withGroupName threshold groups domain) := by
  unfold AlikeButName withGroupName
  split
  · dsimp only
    split <;> rfl
  · rfl

theorem map_files_withChannels (domains : List Domain) :
    (domains.map withChannels).map (·.files) = domains.map (·.files) := by
  rw [List.map_map]
  refine List.map_congr_left fun domain _ => ?_
  exact (alike_withChannels domain).files_eq

theorem map_files_withGroupName (threshold : Number.Binary64) (groups : List String)
    (domains : List Domain) :
    (domains.map (withGroupName threshold groups)).map (·.files) = domains.map (·.files) := by
  rw [List.map_map]
  refine List.map_congr_left fun domain _ => ?_
  exact (alike_withGroupName threshold groups domain).files_eq

theorem map_files_infer (threshold : Number.Binary64) (sensitivity : Sensitivity)
    (files : List SourceFile) :
    (infer threshold sensitivity files).map (·.files) = (classes keyOf files).mergeSort sizeLe := by
  rw [← map_files_byDirectory]
  cases sensitivity with
  | low => rfl
  | medium => exact map_files_withChannels _
  | high => exact (map_files_withGroupName _ _ _).trans (map_files_withChannels _)

theorem exists_file_of_mem_infer {threshold : Number.Binary64} {sensitivity : Sensitivity}
    {files : List SourceFile} {domain : Domain} (h : domain ∈ infer threshold sensitivity files) :
    ∃ file, file ∈ domain.files :=
  List.exists_mem_of_ne_nil _
    ((isPartition_of_files (map_files_infer threshold sensitivity files)).inhabited domain h)

theorem forall₂_map {f : Domain → Domain} {related : Domain → Domain → Prop}
    (h : ∀ domain, related domain (f domain)) (domains : List Domain) :
    List.Forall₂ related domains (domains.map f) := by
  induction domains with
  | nil => exact .nil
  | cons domain rest ih => exact .cons (h domain) ih

/-- At every sensitivity the domains partition the files. The next higher one gives the domains of
the one below in the same places: first with other channels, then with other names. -/
theorem infer_partition (threshold : Number.Binary64) (files : List SourceFile) :
    (∀ sensitivity, IsPartition files (infer threshold sensitivity files)) ∧
    List.Forall₂ AlikeButChannels (infer threshold .low files) (infer threshold .medium files) ∧
    List.Forall₂ AlikeButName (infer threshold .medium files) (infer threshold .high files) := by
  refine ⟨fun sensitivity => ?_, ?_, ?_⟩
  · exact isPartition_of_files (map_files_infer threshold sensitivity files)
  · exact forall₂_map alike_withChannels _
  · exact forall₂_map (alike_withGroupName threshold (namingGroups files)) _

end SourceAtlas.Domain
