import SourceAtlas.Proofs.Domain.Partition

/-!
# Names of domains

A domain takes its name from a directory or from a naming group. A title is empty only for the empty
name, so a domain has no name only if its directory has none: in a path with an empty segment.
-/

namespace SourceAtlas

namespace Text

theorem upperChar_ne_nil (c : Char) : upperChar c ≠ [] := by
  have htable : ∀ item ∈ upperExpansions, item.2 ≠ [] := by decide +kernel
  unfold upperChar
  split
  · exact List.cons_ne_nil _ _
  · split
    · next codes hlookup =>
      obtain ⟨front, back, hsplit, -⟩ := List.lookup_eq_some_iff.mp hlookup
      have hmem : (c.toNat, codes) ∈ upperExpansions := by simp [hsplit]
      rw [ne_eq, List.map_eq_nil_iff]
      exact htable _ hmem
    · exact List.cons_ne_nil _ _

theorem capitalize_eq_nil_iff {text : List Char} : capitalize text = [] ↔ text = [] := by
  cases text with
  | nil => simp [capitalize]
  | cons c rest => simp [capitalize, upperChar_ne_nil]

theorem join_eq_nil_iff {sep : Char} {parts : List (List Char)} :
    join sep parts = [] ↔ parts = [] ∨ parts = [[]] := by
  match parts with
  | [] => simp [join]
  | [part] => simp [join]
  | part :: next :: rest => simp [join]

/-- Only the empty name has an empty title. -/
theorem titleCase_eq_empty_iff {name : String} : titleCase name = "" ↔ name = "" := by
  have hone : nameWords name.toList = [[]] ↔ name.toList = [] := by
    unfold nameWords
    constructor
    · intro h
      have hjoin := join_split '-' (name.toList.map fun c => if c = '_' then '-' else c)
      rw [h] at hjoin
      exact List.map_eq_nil_iff.mp hjoin.symm
    · intro h
      rw [h]
      rfl
  have hwords : nameWords name.toList ≠ [] := split_ne_nil _ _
  have hmap : (nameWords name.toList).map capitalize = [[]] ↔ nameWords name.toList = [[]] := by
    simp only [List.map_eq_singleton_iff, capitalize_eq_nil_iff, exists_eq_right]
  unfold titleCase
  rw [String.ofList_eq_empty_iff, join_eq_nil_iff, List.map_eq_nil_iff, or_iff_right hwords, hmap,
    hone, String.toList_eq_nil_iff]

end Text

namespace Domain

variable {files : List SourceFile} {domain : Domain} {path : String}

/-- A directory key is a segment of the path, or it is the one of the project root. -/
theorem directoryKey_cases (path : String) :
    directoryKey path = rootKey ∨ directoryKey path ∈ Path.segments path := by
  unfold directoryKey
  split
  · exact .inl rfl
  · exact .inl rfl
  · next hsegments =>
    rw [hsegments]
    split <;> simp
  · next hsegments =>
    rw [hsegments]
    exact .inr List.mem_cons_self

/-- Only a path with an empty segment has an empty directory key. -/
theorem mem_segments_of_directoryKey (h : directoryKey path = "") : "" ∈ Path.segments path := by
  rcases directoryKey_cases path with hroot | hsegment
  · rw [h] at hroot
    exact absurd hroot (by decide)
  · rwa [h] at hsegment

theorem name_of_mem_byDirectory (h : domain ∈ byDirectory files) :
    ∃ file ∈ files, domain.name = Text.titleCase (directoryKey file.path) := by
  unfold byDirectory groupByKey at h
  rw [List.mem_mergeSort, List.map_map] at h
  obtain ⟨key, hkey, rfl⟩ := List.mem_map.mp h
  obtain ⟨file, hfile, rfl⟩ := List.mem_map.mp (mem_distinct.mp hkey)
  exact ⟨file, hfile, rfl⟩

theorem name_withChannels (domain : Domain) : (withChannels domain).name = domain.name := by
  unfold withChannels
  split <;> rfl

/-- A group never takes the name of a domain away. -/
theorem name_withGroupName_ne (threshold : Number.Binary64) (groups : List String)
    (h : domain.name ≠ "") : (withGroupName threshold groups domain).name ≠ "" := by
  unfold withGroupName
  split
  · dsimp only
    split
    · exact h
    · next hname => simpa using hname
  · exact h

/-- A domain without a name has a file with an empty segment in its path. -/
theorem name_ne_of_mem_infer {threshold : Number.Binary64} {sensitivity : Sensitivity}
    (h : domain ∈ infer threshold sensitivity files)
    (hsegments : ∀ file ∈ files, "" ∉ Path.segments file.path) : domain.name ≠ "" := by
  have hlow : ∀ domain ∈ byDirectory files, domain.name ≠ "" := by
    intro domain hdomain hname
    obtain ⟨file, hfile, htitle⟩ := name_of_mem_byDirectory hdomain
    rw [htitle, Text.titleCase_eq_empty_iff] at hname
    exact hsegments file hfile (mem_segments_of_directoryKey hname)
  have hmedium : ∀ domain ∈ (byDirectory files).map withChannels, domain.name ≠ "" := by
    intro domain hdomain
    obtain ⟨lower, hlower, rfl⟩ := List.mem_map.mp hdomain
    rw [name_withChannels]
    exact hlow lower hlower
  cases sensitivity with
  | low => exact hlow domain h
  | medium => exact hmedium domain h
  | high =>
      obtain ⟨lower, hlower, rfl⟩ := List.mem_map.mp h
      exact name_withGroupName_ne threshold _ (hmedium lower hlower)

end Domain

end SourceAtlas
