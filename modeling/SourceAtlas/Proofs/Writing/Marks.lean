import SourceAtlas.Proofs.Listing.Walk
import SourceAtlas.Proofs.Writing.Plain

/-!
# Tags in a plain project

A tag that aims at a file of a plain project marks the file or leaves it alone, and the bytes that
the file has say which one it is. Tags that aim at different files do not get in each other's way.
-/

namespace SourceAtlas

namespace Project

open Disk

variable {shell : Shell} {root : Route} {tag : InlineTag} {tags : List InlineTag}
  {volume : Volume} {tree before after : Tree}

/-- The route that the location of a tag shows. -/
def target (tag : InlineTag) : Route := (Location.ofText tag.location).parts

/-- A tag aims at a file of the project, and there are no surrogates in it. -/
structure AimsAt (tree : Tree) (root : Route) (tag : InlineTag) : Prop where
  location : Location.ofText tag.location = .ofRoute (target tag)
  below : root <+: target tag
  usable : (Location.ofRoute (target tag)).IsUsable
  file : ∃ bytes modified, tree.find? (target tag) = some (.file bytes modified)
  label : ∃ label, tag.suggested = .ofList label

theorem AimsAt.of_find? (h : AimsAt before root tag)
    (hsame : after.find? (target tag) = before.find? (target tag)) : AimsAt after root tag :=
  ⟨h.location, h.below, h.usable, by rw [hsame]; exact h.file, h.label⟩

/-- The directory and the name of the file that a tag aims at. -/
theorem AimsAt.splits (h : AimsAt tree root tag) (hplain : tree.IsPlain root) :
    ∃ front name, target tag = root ++ (front ++ [name]) ∧
      tree.find? (root ++ front) = some .directory ∧ Tree.IsPlainName name := by
  obtain ⟨back, hback⟩ := h.below
  obtain ⟨bytes, modified, hfile⟩ := h.file
  rw [← hback] at hfile
  have hne : back ≠ [] := by
    rintro rfl
    rw [List.append_nil, hplain.directory] at hfile
    cases hfile
  have hlast := (List.dropLast_concat_getLast hne).symm
  rw [hlast] at hfile hback
  exact ⟨_, _, hback.symm, hplain.directory_above hfile (List.cons_ne_nil _ _),
    (hplain.isProjectName hfile (by simp)).isName.plain⟩

/-- The bytes that the tag gives a file: the tag, a line ending, and the text without its first
tag. -/
def retagged (tag : InlineTag) (text : List Char) : Option (List UInt8) :=
  (Tag.retag tag.suggested text).encode.toOption

/-- The bytes of the file of a tag after the tag was written, if it is written. -/
def marked? (tree : Tree) (tag : InlineTag) : Option (List UInt8) :=
  match tree.find? (target tag) with
  | some (.file bytes _) =>
      if tag.selected && Tree.takesTemporary (target tag) then
        (Text.Utf8.decode bytes).toOption.bind (retagged tag)
      else none
  | _ => none

theorem marked?_congr (h : after.find? (target tag) = before.find? (target tag)) :
    marked? after tag = marked? before tag := by
  unfold marked?
  rw [h]

/-- A text with a tag on top of it. -/
def withLabel (label text : List Char) : List Char :=
  label ++ (Text.lineEnding text ++ Tag.strip text)

theorem encode_retag {label : List Char} (h : tag.suggested = .ofList label) (text : List Char) :
    (Tag.retag tag.suggested text).encode = .ok (Text.Utf8.encode (withLabel label text)) := by
  rw [h, Tag.retag, Text.Draft.ofList_append, Text.Draft.encode_ofList, withLabel]

/-- What writing tags changes. -/
structure MarkEffect (before after : Tree) (root : Route) (tags : List InlineTag) : Prop where
  plain : after.IsPlain root
  marked : ∀ tag ∈ tags, ∀ bytes, marked? before tag = some bytes →
    after.find? (target tag) = some (.file bytes .recently)
  kept : ∀ place, (∀ tag ∈ tags, (marked? before tag).isSome → target tag ≠ place) →
    after.find? place = before.find? place

/-! ## One tag -/

theorem markEffect_of_isWith (hplain : before.IsPlain root) (haims : AimsAt before root tag)
    (hdistinct : (after.entries.map Prod.fst).Nodup) {bytes : List UInt8}
    (hmarked : marked? before tag = some bytes)
    (hwith : before.IsWith (target tag) (.file bytes .recently) after) :
    MarkEffect before after root [tag] where
  plain := by
    obtain ⟨old, modified, hfile⟩ := haims.file
    exact hplain.of_isWith_file haims.below hfile hwith hdistinct
  marked other hother new hnew := by
    obtain rfl := List.mem_singleton.mp hother
    rw [hmarked] at hnew
    cases hnew
    rw [hwith, if_pos rfl]
  kept place hplace := by
    have hne := hplace tag List.mem_cons_self (by rw [hmarked]; rfl)
    rw [hwith, if_neg hne.symm]

theorem markEffect_of_isSame (hplain : before.IsPlain root)
    (hdistinct : (after.entries.map Prod.fst).Nodup) (hmarked : marked? before tag = none)
    (hsame : before.IsSame after) : MarkEffect before after root [tag] where
  plain := hplain.of_isSame hsame hdistinct
  marked other hother new hnew := by
    obtain rfl := List.mem_singleton.mp hother
    rw [hmarked] at hnew
    cases hnew
  kept place _ := hsame place

theorem isWithin_of_aims (hplain : tree.IsPlain root) (haims : AimsAt tree root tag)
    (shell : Shell) : isWithin tree shell root (.ofText tag.location) = .ok true := by
  obtain ⟨bytes, modified, hfile⟩ := haims.file
  obtain ⟨back, hback⟩ := haims.below
  have hstraight : tree.IsStraight [] (target tag) := by
    rw [← hback] at hfile ⊢
    exact hplain.isStraight hfile
  have hstat := hplain.sound.stat_file hfile shell haims.usable
  have hresolve : tree.resolve shell (.ofRoute (target tag)) = .ok (target tag) := by
    refine Tree.resolve_of_straight hstraight haims.usable.1 fun path goal hloop => ?_
    rw [hstat] at hloop
    cases hloop
  unfold isWithin
  rw [haims.location, hresolve]
  dsimp only [Location.ofRoute]
  rw [Tree.below?_eq_some_iff.mpr hback.symm]
  rfl

theorem marked?_eq {bytes : List UInt8} {modified : Modified}
    (hfile : tree.find? (target tag) = some (.file bytes modified)) :
    marked? tree tag =
      if tag.selected && Tree.takesTemporary (target tag) then
        (Text.Utf8.decode bytes).toOption.bind (retagged tag)
      else none := by
  unfold marked?
  rw [hfile]

theorem readExact_of_aims (hplain : tree.IsPlain root) (haims : AimsAt tree root tag)
    (shell : Shell) {bytes : List UInt8} {modified : Modified}
    (hfile : tree.find? (target tag) = some (.file bytes modified)) :
    tree.readExact shell (.ofText tag.location) =
      (Text.Utf8.decode bytes).mapError fun cause => .encoding (.undecodable cause) := by
  unfold Tree.readExact Tree.readBytes
  rw [haims.location, hplain.sound.stat_file hfile shell haims.usable]
  rfl

/-- A tag is put on top of the text in its file, unless the name of the file leaves no room for that of
a temporary file. -/
theorem runOn_diskWriteTag_plain (hplain : volume.tree.IsPlain root)
    (haims : AimsAt volume.tree root tag) (shell : Shell) {label text : List Char}
    (hlabel : tag.suggested = .ofList label)
    (hread : volume.tree.readExact shell (.ofText tag.location) = .ok text) :
    ∃ result edits, runOn (Disk.writeTag shell (.ofText tag.location) tag.suggested) volume =
        (result, volume.edit edits) ∧
      if Tree.takesTemporary (target tag) = true then
        result = .ok () ∧ volume.tree.IsWith (target tag)
          (.file (Text.Utf8.encode (withLabel label text)) .recently) (volume.tree.applyAll edits)
      else
        (∃ failure, result = .error failure) ∧ volume.tree.IsSame (volume.tree.applyAll edits) := by
  obtain ⟨bytes, modified, hfile⟩ := haims.file
  obtain ⟨front, name, hroute, hparent, hname⟩ := haims.splits hplain
  obtain ⟨result, edits, hrun, heffect⟩ :=
    runOn_writeText_plain hplain shell hparent hname (encode_retag hlabel text)
  rw [← hroute, hfile] at heffect
  rw [← hroute] at hrun
  refine ⟨result, edits, ?_, by simpa using heffect⟩
  unfold Disk.writeTag
  rw [runOn_bind, runOn_view, hread]
  dsimp only
  rw [haims.location, hrun]

/-- The file of a tag is marked, or nothing changes. -/
theorem runOn_writeTag_plain (hplain : volume.tree.IsPlain root)
    (haims : AimsAt volume.tree root tag) (shell : Shell) :
    ∃ outcome edits, runOn (writeTag shell root tag) volume =
        (.ok outcome, volume.edit edits) ∧
      (outcome == .written) = (marked? volume.tree tag).isSome ∧
      MarkEffect volume.tree (volume.tree.applyAll edits) root [tag] := by
  have hdistinct := Tree.distinct_applyAll hplain.sound.distinct
  have hunchanged : marked? volume.tree tag = none →
      MarkEffect volume.tree (volume.tree.applyAll []) root [tag] := fun hmarked =>
    markEffect_of_isSame hplain hplain.sound.distinct hmarked fun _ => rfl
  obtain ⟨bytes, modified, hfile⟩ := haims.file
  have hmarked := marked?_eq hfile
  have hread := readExact_of_aims hplain haims shell hfile
  rw [runOn_writeTag, isWithin_of_aims hplain haims]
  cases hselected : tag.selected with
  | false =>
      rw [hselected, Bool.false_and, if_neg Bool.false_ne_true] at hmarked
      exact ⟨.unselected, [], by rw [if_pos rfl, Volume.edit_nil], by rw [hmarked]; rfl,
        hunchanged hmarked⟩
  | true =>
      rw [hselected, Bool.true_and] at hmarked
      simp only [Bool.true_eq_false, if_false]
      cases hdecode : Text.Utf8.decode bytes with
      | error cause =>
          rw [hdecode] at hread hmarked
          have hnone : marked? volume.tree tag = none := by
            rw [hmarked]
            split <;> rfl
          refine ⟨.failed (.encoding (.undecodable cause)), [], ?_, by rw [hnone]; rfl,
            hunchanged hnone⟩
          unfold Disk.writeTag
          rw [runOn_bind, runOn_view, hread, Volume.edit_nil]
          rfl
      | ok text =>
          obtain ⟨label, hlabel⟩ := haims.label
          rw [hdecode] at hread hmarked
          have hnew : retagged tag text = some (Text.Utf8.encode (withLabel label text)) := by
            rw [retagged, encode_retag hlabel]
            rfl
          obtain ⟨result, edits, hrun, heffect⟩ :=
            runOn_diskWriteTag_plain hplain haims shell hlabel hread
          rw [hrun]
          by_cases htakes : Tree.takesTemporary (target tag) = true
          · rw [if_pos htakes] at heffect hmarked
            obtain ⟨rfl, hwith⟩ := heffect
            have hsome := hmarked.trans hnew
            refine ⟨.written, edits, rfl, by rw [hsome]; rfl, ?_⟩
            exact markEffect_of_isWith hplain haims (hdistinct edits) hsome hwith
          · rw [if_neg htakes] at heffect hmarked
            obtain ⟨⟨failure, rfl⟩, hsame⟩ := heffect
            refine ⟨.failed failure, edits, rfl, by rw [hmarked]; rfl, ?_⟩
            exact markEffect_of_isSame hplain (hdistinct edits) hmarked hsame

/-! ## All tags -/

/-- The tags of a list that mark their files. -/
def marking (tree : Tree) (tags : List InlineTag) : List InlineTag :=
  tags.filter fun tag => (marked? tree tag).isSome

theorem markEffect_nil (hplain : tree.IsPlain root) : MarkEffect tree tree root [] :=
  ⟨hplain, (fun _ hmem => nomatch hmem), fun _ _ => rfl⟩

/-- Tags for other files than the first one do what they do without it. -/
theorem MarkEffect.cons {between : Tree} (hfirst : MarkEffect before between root [tag])
    (hrest : MarkEffect between after root tags)
    (hne : ∀ other ∈ tags, target other ≠ target tag)
    (hsame : ∀ other ∈ tags, marked? between other = marked? before other) :
    MarkEffect before after root (tag :: tags) where
  plain := hrest.plain
  marked other hother bytes hmarked := by
    rcases List.mem_cons.mp hother with rfl | hother
    · rw [hrest.kept _ fun later hlater _ => hne later hlater]
      exact hfirst.marked other List.mem_cons_self bytes hmarked
    · exact hrest.marked other hother bytes ((hsame other hother).trans hmarked)
  kept place hplace := by
    rw [List.forall_mem_cons] at hplace
    rw [hrest.kept place fun other hother hmarked =>
        hplace.2 other hother (hsame other hother ▸ hmarked),
      hfirst.kept place (List.forall_mem_singleton.mpr hplace.1)]

/-- Tags for different files are written one by one: each marks its file or changes nothing. -/
theorem run_writeTags_plain (hplain : volume.tree.IsPlain root)
    (haims : ∀ tag ∈ tags, AimsAt volume.tree root tag) (hnodup : (tags.map target).Nodup)
    (shell : Shell) :
    ∃ outcomes edits, (writeTags shell root tags).run volume =
        ((outcomes, none), volume.edit edits) ∧
      outcomes.countP (fun handled => handled.2 == .written) =
        (marking volume.tree tags).length ∧
      MarkEffect volume.tree (volume.tree.applyAll edits) root tags := by
  induction tags generalizing volume with
  | nil =>
      exact ⟨[], [], by rw [Volume.edit_nil]; rfl, rfl, markEffect_nil hplain⟩
  | cons tag rest ih =>
      rw [List.map_cons, List.nodup_cons] at hnodup
      have hne : ∀ other ∈ rest, target other ≠ target tag := fun other hother hsame =>
        hnodup.1 (List.mem_map.mpr ⟨other, hother, hsame⟩)
      obtain ⟨outcome, edits, hrun, houtcome, heffect⟩ :=
        runOn_writeTag_plain hplain (haims tag List.mem_cons_self) shell
      -- whatever the first tag does, the files of the others stay as they are
      have hothers : ∀ other ∈ rest, (volume.edit edits).tree.find? (target other) =
          volume.tree.find? (target other) := fun other hother =>
        heffect.kept _ (List.forall_mem_singleton.mpr fun _ => (hne other hother).symm)
      have hsame : ∀ other ∈ rest, marked? (volume.edit edits).tree other =
          marked? volume.tree other := fun other hother => marked?_congr (hothers other hother)
      obtain ⟨outcomes, more, hmore, hcount, hlater⟩ := ih heffect.plain
        (fun other hother => (haims other (List.mem_cons_of_mem _ hother)).of_find?
          (hothers other hother)) hnodup.2
      refine ⟨(tag, outcome) :: outcomes, edits ++ more, ?_, ?_, ?_⟩
      · rw [run_writeTags_cons, hrun]
        dsimp only
        rw [hmore, Volume.edit_edit]
      · rw [List.countP_cons, hcount, houtcome]
        have hmarking : marking (volume.edit edits).tree rest = marking volume.tree rest :=
          List.filter_congr fun other hother => by rw [hsame other hother]
        rw [hmarking]
        unfold marking
        rw [List.filter_cons]
        split <;> simp
      · rw [Tree.applyAll_append]
        exact heffect.cons hlater hne hsame

end Project

end SourceAtlas
