import Mathlib.Control.Monad.Basic
import SourceAtlas.Proofs.Scan.Files
import SourceAtlas.Proofs.Tag.Reading
import SourceAtlas.Proofs.Tag.Ranking
import SourceAtlas.Proofs.Writing.Effect

/-!
# The tags of a scan

A scan of a plain project proposes tags for files that it knows, each for a file of its own, and for
no document. A proposal is selected if the text of its file, read leniently, has no tag, and then
nothing is cut out of the file when the tag is put on top of it.
-/

namespace SourceAtlas

open Project

variable {tree : Tree} {shell : Shell} {root names : Route} {file : SourceFile} {tag : InlineTag}
  {cause : Git.Failure} {settings : Settings}

/-- The tag that a scan proposes for a file. -/
def Scan.tagFor (scan : Scan) (tree : Tree) (shell : Shell) (file : SourceFile) : InlineTag :=
  InlineTag.propose (fun file => tree.tagAt? shell (.ofText file.location)) scan.domains
    (.ofFile [] file)

/-- A file at the names can carry a tag, so it is no document. -/
def IsTaggable (names : Route) : Prop :=
  ((Language.ofPath? (slashed names)).getD .unknown).isTaggable = true

theorem IsTaggable.ne_pageRoute (h : IsTaggable names) (page : Page) :
    root ++ names ≠ pageRoute root page := by
  intro hsame
  cases page with
  | overview =>
      obtain rfl := List.append_cancel_left hsame
      exact absurd h (by unfold IsTaggable; decide +kernel)
  | index =>
      obtain rfl := List.append_cancel_left hsame
      exact absurd h (by unfold IsTaggable; decide +kernel)

theorem IsTaggable.ne_docsRoute (h : IsTaggable names) : root ++ names ≠ docsRoute root := by
  intro hsame
  obtain rfl := List.append_cancel_left hsame
  exact absurd h (by unfold IsTaggable; decide +kernel)

namespace Scan

/-- A proposed tag, with the file that it is for. -/
structure Proposes (tree : Tree) (shell : Shell) (root : Route) (scan : Scan) (limit : Int)
    (tag : InlineTag) (names : Route) (file : SourceFile) : Prop where
  knows : Knows tree root names file
  candidate : RankedFile.isCandidate file = true
  mem : file ∈ scan.files
  best : RankedFile.ofFile [] file ∈ RankedFile.best [] limit scan.files
  tag : tag = scan.tagFor tree shell file

theorem exists_of_mem_tags {reply : Git.Reply} {root : Location}
    (h : tag ∈ (ofTree tree shell reply settings root).tags) :
    ∃ file ∈ (ofTree tree shell reply settings root).files, RankedFile.isCandidate file = true ∧
      RankedFile.ofFile [] file ∈ RankedFile.best [] settings.maxTags
        (ofTree tree shell reply settings root).files ∧
      tag = (ofTree tree shell reply settings root).tagFor tree shell file := by
  obtain ⟨ranked, hbest, rfl⟩ := List.mem_map.mp h
  have hascends := pairwise_files tree shell reply settings root
  obtain ⟨file, hfile, hcandidate, rfl, -⟩ := (RankedFile.mem_best hascends _ _ _).mp hbest
  exact ⟨file, hfile, hcandidate, hbest, rfl⟩

theorem mem_tags (hplain : tree.IsPlain root) (shell : Shell) (cause : Git.Failure)
    (settings : Settings)
    (h : tag ∈ (ofTree tree shell (.error cause) settings root).tags) :
    ∃ names file, Proposes tree shell root (ofTree tree shell (.error cause) settings root)
      settings.maxTags tag names file := by
  obtain ⟨file, hfile, hcandidate, hbest, htag⟩ := exists_of_mem_tags h
  obtain ⟨names, -, -, hknows⟩ := (mem_files hplain.isOrdinary shell cause settings file).mp hfile
  exact ⟨names, file, hknows, hcandidate, hfile, hbest, htag⟩

theorem Proposes.mem_tags
    (h : Proposes tree shell root (ofTree tree shell (.error cause) settings root)
      settings.maxTags tag names file) :
    tag ∈ (ofTree tree shell (.error cause) settings root).tags := by
  rw [h.tag]
  exact List.mem_map.mpr ⟨_, h.best, rfl⟩

section Proposed

variable {scan : Scan} {limit : Int}

theorem Proposes.location (hplain : tree.IsPlain root)
    (h : Proposes tree shell root scan limit tag names file) :
    Location.ofText tag.location = .ofRoute (root ++ names) := by
  rw [h.tag]
  change Location.ofText file.location = _
  rw [h.knows.location, Location.ofText_text_ofRoute (h.knows.isName_route hplain.sound)]

theorem Proposes.target_eq (hplain : tree.IsPlain root)
    (h : Proposes tree shell root scan limit tag names file) : target tag = root ++ names := by
  unfold Project.target
  rw [h.location hplain]
  rfl

theorem Proposes.aims (hplain : tree.IsPlain root)
    (h : Proposes tree shell root scan limit tag names file) : AimsAt tree root tag := by
  have htarget := h.target_eq hplain
  obtain ⟨bytes, modified, hfind, husable, -⟩ := h.knows
  refine ⟨by rw [h.location hplain, htarget], ?_, ?_, ?_, ?_⟩
  · exact htarget ▸ List.prefix_append _ _
  · rwa [htarget]
  · exact ⟨bytes, modified, htarget ▸ hfind⟩
  · rw [h.tag]
    exact ⟨_, rfl⟩

theorem Proposes.isTaggable (h : Proposes tree shell root scan limit tag names file) :
    IsTaggable names := by
  have hcandidate := h.candidate
  rw [RankedFile.isCandidate, h.knows.language, Bool.and_eq_true] at hcandidate
  exact hcandidate.1

theorem Proposes.label (h : Proposes tree shell root scan limit tag names file) :
    ∃ domain, tag.suggested = .ofList (InlineTag.suggestion file domain
      (", ".intercalate ((Sign.ofFile file).map Sign.name))).toList := by
  rw [h.tag]
  exact ⟨_, rfl⟩

/-- A proposal is selected if the text of the file has no tag. -/
theorem Proposes.selected (hplain : tree.IsPlain root)
    (h : Proposes tree shell root scan limit tag names file) {bytes : List UInt8}
    {modified : Modified} (hfind : tree.find? (root ++ names) = some (.file bytes modified)) :
    tag.selected =
      (Tag.find? (Text.translateNewlines (Text.Utf8.decodeReplacing bytes))).isNone := by
  obtain ⟨-, -, -, husable, -⟩ := h.knows
  have hread : tree.readBytes shell (.ofText file.location) = .ok bytes := by
    rw [h.knows.location, Location.ofText_text_ofRoute (h.knows.isName_route hplain.sound)]
    rcases hplain.sound.readBytes_file hfind shell with ⟨-, hread⟩ | ⟨hlong, -⟩
    · exact hread
    · exact absurd husable hlong
  have hcurrent : tag.selected = (tree.tagAt? shell (.ofText file.location)).isNone := by
    rw [h.tag]
    rfl
  rw [hcurrent, Tree.tagAt?, Tree.readLenient, hread, Option.isNone_map]
  rfl

end Proposed

/-- The proposed tags are for different files. -/
theorem nodup_tag_paths (tree : Tree) (shell : Shell) (reply : Git.Reply) (settings : Settings)
    (root : Location) : ((ofTree tree shell reply settings root).tags.map (·.path)).Nodup := by
  have hbest := RankedFile.nodup_best (pairwise_files tree shell reply settings root) []
    settings.maxTags
  change ((List.map _ _).map _).Nodup
  rw [List.map_map]
  exact hbest

/-- The proposed tags are written to different places. -/
theorem nodup_tags (hplain : tree.IsPlain root) (shell : Shell) (cause : Git.Failure)
    (settings : Settings) :
    ((ofTree tree shell (.error cause) settings root).tags.map target).Nodup := by
  have htags := List.Pairwise.of_map _ (fun _ _ hne => hne)
    (nodup_tag_paths tree shell (.error cause) settings root)
  refine List.Pairwise.map _ (fun _ _ hne => hne) (htags.imp_of_mem ?_)
  intro first second hfirst hsecond hne hsame
  obtain ⟨names, file, hproposes⟩ := mem_tags hplain shell cause settings hfirst
  obtain ⟨others, other, hother⟩ := mem_tags hplain shell cause settings hsecond
  rw [hproposes.target_eq hplain, hother.target_eq hplain] at hsame
  obtain rfl := List.append_cancel_left hsame
  apply hne
  rw [hproposes.tag, hother.tag]
  change file.path = other.path
  rw [hproposes.knows.path, hother.knows.path]

theorem length_tags_le (tree : Tree) (shell : Shell) (reply : Git.Reply) (settings : Settings)
    (root : Location) : (ofTree tree shell reply settings root).tags.length ≤ settings.maxTags := by
  change (List.map _ _).length ≤ _
  rw [List.length_map]
  exact RankedFile.length_best_le [] settings.maxTags _

end Scan

end SourceAtlas
