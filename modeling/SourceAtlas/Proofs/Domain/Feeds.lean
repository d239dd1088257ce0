import SourceAtlas.Proofs.Domain.Channels
import SourceAtlas.Proofs.Path.Name

/-!
# Line feeds in names of domains

A domain has a line feed in its name only if some path has one, and there is none in its channels.
Case mappings make no line feed, and everything else in a name is taken over from a path.
-/

namespace SourceAtlas

namespace Text

variable {c : Char} {text : List Char}

/-- A mapping that makes no line breaks, and no line feed of a return, makes no line feed. -/
theorem eq_feed_of_mem {f : Char → List Char} (hline : ∀ c, Tag.isBreak c = false → IsOneLine (f c))
    (hreturn : '\n' ∉ f '\r') (h : '\n' ∈ f c) : c = '\n' := by
  by_cases hbreak : Tag.isBreak c = false
  · cases hline c hbreak _ h
  · rw [Bool.not_eq_false, Tag.isBreak, Bool.or_eq_true, beq_iff_eq, beq_iff_eq] at hbreak
    rcases hbreak with hfeed | rfl
    · exact hfeed
    · exact absurd h hreturn

theorem feed_of_mem_capitalize (h : '\n' ∈ capitalize text) : '\n' ∈ text := by
  cases text with
  | nil => exact h
  | cons c text =>
      rcases List.mem_append.mp h with hfirst | hrest
      · rw [eq_feed_of_mem (fun c => (isOneLine_upperChar c).mpr) (by decide +kernel) hfirst]
        exact List.mem_cons_self
      · exact List.mem_cons_of_mem _ hrest

theorem feed_of_mem_uncapitalize (h : '\n' ∈ uncapitalize text) : '\n' ∈ text := by
  cases text with
  | nil => exact h
  | cons c text =>
      rcases List.mem_append.mp h with hfirst | hrest
      · rw [eq_feed_of_mem (fun c => (isOneLine_lowerChar c).mpr) (by decide +kernel) hfirst]
        exact List.mem_cons_self
      · exact List.mem_cons_of_mem _ hrest

/-- A title has a line feed only if the name has one. -/
theorem feed_of_mem_titleCase {name : String} (h : '\n' ∈ (titleCase name).toList) :
    '\n' ∈ name.toList := by
  by_contra hnone
  have hwords : ∀ word ∈ (nameWords name.toList).map capitalize, ∀ c ∈ word, c ≠ '\n' := by
    intro word hword c hc hfeed
    subst hfeed
    obtain ⟨part, hpart, rfl⟩ := List.mem_map.mp hword
    have hname := mem_of_mem_split hpart (feed_of_mem_capitalize hc)
    obtain ⟨d, hd, hsame⟩ := List.mem_map.mp hname
    split at hsame
    · cases hsame
    · exact hnone (hsame ▸ hd)
  unfold titleCase at h
  rw [String.toList_ofList] at h
  exact forall_mem_join (by decide) hwords _ h rfl

theorem not_mem_intercalate {c : Char} {sep : String} {parts : List String} (hsep : c ∉ sep.toList)
    (h : ∀ part ∈ parts, c ∉ part.toList) : c ∉ (sep.intercalate parts).toList := by
  induction parts with
  | nil => simp
  | cons first rest ih =>
      rw [List.forall_mem_cons] at h
      cases rest with
      | nil => simpa using h.1
      | cons next rest =>
          rw [String.intercalate_cons_cons, String.toList_append, String.toList_append,
            List.mem_append, List.mem_append, not_or, not_or]
          exact ⟨⟨h.1, hsep⟩, ih h.2⟩

end Text

namespace Domain

open Text

variable {files : List SourceFile} {file : SourceFile} {domain : Domain} {path group : String}
  {threshold : Number.Binary64} {sensitivity : Sensitivity}

/-! ## Names -/

theorem feed_not_mem_nameBefore? {endings : List String} {text name : List Char}
    (h : nameBefore? endings text = some name) : '\n' ∉ name := by
  have hplain := (Option.filter_eq_some_iff.mp h).2
  intro hfeed
  simp [isPlainName, hfeed] at hplain

/-- A naming group has no line feed in its name. -/
theorem feed_not_mem_namingGroup? (h : namingGroup? path = some group) : '\n' ∉ group.toList := by
  unfold namingGroup? at h
  obtain ⟨name, hname, rfl⟩ := Option.map_eq_some_iff.mp h
  rw [String.toList_ofList]
  cases hhook : hookGroup? (Path.lastSegment path.toList) with
  | some hook =>
      rw [hhook] at hname
      cases hname
      obtain ⟨plain, hplain, rfl⟩ := Option.map_eq_some_iff.mp hhook
      obtain ⟨behind, -, hbefore⟩ := Option.bind_eq_some_iff.mp hplain
      exact fun hfeed => feed_not_mem_nameBefore? hbefore (feed_of_mem_uncapitalize hfeed)
  | none =>
      rw [hhook] at hname
      exact feed_not_mem_nameBefore? hname

theorem feed_of_mem_directoryKey (h : '\n' ∈ (directoryKey path).toList) : '\n' ∈ path.toList := by
  rcases directoryKey_cases path with hroot | hsegment
  · rw [hroot] at h
    exact absurd h (by decide)
  · obtain ⟨part, hpart, hsame⟩ := List.mem_map.mp hsegment
    rw [← hsame, String.toList_ofList] at h
    exact mem_of_mem_split hpart h

/-- A domain has a line feed in its name only if a path has one. -/
theorem exists_of_feed_mem_name (hdomain : domain ∈ infer threshold sensitivity files)
    (hfeed : '\n' ∈ domain.name.toList) : ∃ file ∈ files, '\n' ∈ file.path.toList := by
  obtain ⟨file, hfile⟩ := exists_file_of_mem_infer hdomain
  have hin : file ∈ files := by
    rw [files_eq_filter hdomain hfile] at hfile
    exact (List.mem_filter.mp hfile).1
  rw [name_of_mem_infer hdomain hfile] at hfeed
  refine ⟨file, hin, feed_of_mem_directoryKey ?_⟩
  have hnamed := feed_of_mem_titleCase hfeed
  cases sensitivity with
  | low | medium => exact hnamed
  | high =>
      unfold namedAfter at hnamed
      dsimp only at hnamed
      cases hfind : (namingGroups files).find? ((around files file.path).isCovered threshold) with
      | none => rwa [hfind] at hnamed
      | some group =>
          obtain ⟨member, -, hgroup⟩ := mem_namingGroups.mp (List.mem_of_find?_eq_some hfind)
          rw [hfind] at hnamed
          exact absurd hnamed (feed_not_mem_namingGroup? hgroup)

/-! ## Channels -/

theorem feed_not_mem_channels (hdomain : domain ∈ infer threshold sensitivity files)
    {channels : String} (h : domain.channels = some channels) : '\n' ∉ channels.toList := by
  have htable : ∀ item ∈ channelTable, '\n' ∉ item.2.toList := by decide
  by_cases hlow : sensitivity = .low
  · subst hlow
    rw [channels_of_mem_byDirectory hdomain] at h
    cases h
  · rw [channels_of_mem_infer hlow hdomain] at h
    split at h
    · cases h
    · rw [← Option.some.inj h]
      refine not_mem_intercalate (by decide) fun channel hchannel => ?_
      obtain ⟨file, -, hserves⟩ := mem_channelsOf.mp hchannel
      exact htable _ hserves.known

end Domain

end SourceAtlas
