import SourceAtlas.Proofs.Project.Generation
import SourceAtlas.Proofs.Scan.Tags
import SourceAtlas.Yaml.Document

/-!
# Generating and writing marks files and does nothing else

In a plain project without git, the proposed tags are put on top of files that have no tag, in front
of the bytes that these files had. All other files stay as they are, apart from the documents.
-/

namespace SourceAtlas.Project

variable {tree after : Tree} {shell : Shell} {root : Route} {path : String} {tag : InlineTag}
  {tags : List InlineTag}

/-- A file without a tag gets one in front of its bytes. -/
structure Marks (tag : InlineTag) (old new : List UInt8) : Prop where
  untagged : Tag.find? (Text.translateNewlines (Text.Utf8.decodeReplacing old)) = none
  bytes : ∃ mark ending, tag.suggested.encode = .ok mark ∧ (ending = [10] ∨ ending = [13, 10]) ∧
    new = mark ++ (ending ++ old)

theorem encode_lineEnding (text : List Char) :
    Text.Utf8.encode (Text.lineEnding text) = [10] ∨
      Text.Utf8.encode (Text.lineEnding text) = [13, 10] := by
  unfold Text.lineEnding
  split
  · exact .inr (by decide)
  · exact .inl (by decide)

theorem marked?_of_file {label : List Char} (hlabel : tag.suggested = .ofList label)
    {old new : List UInt8} {since : Modified}
    (hfile : tree.find? (target tag) = some (.file old since))
    (hmarked : marked? tree tag = some new) :
    tag.selected = true ∧ ∃ text, Text.Utf8.decode old = .ok text ∧
      new = Text.Utf8.encode (withLabel label text) := by
  unfold marked? at hmarked
  rw [hfile] at hmarked
  dsimp only at hmarked
  split at hmarked
  · next hboth =>
      rw [Bool.and_eq_true] at hboth
      cases hdecode : Text.Utf8.decode old with
      | error cause => rw [hdecode] at hmarked; cases hmarked
      | ok text =>
          rw [hdecode] at hmarked
          have hnew : retagged tag text = some new := hmarked
          rw [retagged, encode_retag hlabel text] at hnew
          cases hnew
          exact ⟨hboth.1, text, rfl, rfl⟩
  · cases hmarked

/-- A file that a scan marks has no tag before, and nothing is cut out of it. -/
theorem untagged_of_marked {names : Route} {file : SourceFile} {scan : Scan} {limit : Int}
    (hplain : tree.IsPlain root)
    (hproposes : Scan.Proposes tree shell root scan limit tag names file) {old new : List UInt8}
    {since : Modified} (hfind : tree.find? (root ++ names) = some (.file old since))
    {label : List Char} (hlabel : tag.suggested = .ofList label)
    (hmarked : marked? tree tag = some new) :
    ∃ text, Text.Utf8.decode old = .ok text ∧ Tag.find? (Text.translateNewlines text) = none ∧
      new = Text.Utf8.encode (label ++ (Text.lineEnding text ++ text)) := by
  have hfile : tree.find? (target tag) = some (.file old since) := by
    rwa [hproposes.target_eq hplain]
  obtain ⟨hselected, text, hdecode, rfl⟩ := marked?_of_file hlabel hfile hmarked
  rw [hproposes.selected hplain hfind, Option.isNone_iff_eq_none,
    Text.Utf8.decodeReplacing_of_decode hdecode] at hselected
  refine ⟨text, hdecode, hselected, ?_⟩
  rw [withLabel, Tag.strip_of_translated hselected]

/-- A file that a scan marks keeps its bytes behind the new tag. -/
theorem marks_of_marked {names : Route} {file : SourceFile} {scan : Scan} {limit : Int}
    (hplain : tree.IsPlain root)
    (hproposes : Scan.Proposes tree shell root scan limit tag names file) {new : List UInt8}
    (hmarked : marked? tree tag = some new) :
    ∃ old since, tree.find? (target tag) = some (.file old since) ∧ Marks tag old new := by
  obtain ⟨old, since, hfile⟩ := (hproposes.aims hplain).file
  obtain ⟨label, hlabel⟩ := (hproposes.aims hplain).label
  have hfind : tree.find? (root ++ names) = some (.file old since) := by
    rwa [hproposes.target_eq hplain] at hfile
  obtain ⟨text, hdecode, huntagged, rfl⟩ :=
    untagged_of_marked hplain hproposes hfind hlabel hmarked
  refine ⟨old, since, hfile, by rwa [Text.Utf8.decodeReplacing_of_decode hdecode],
    Text.Utf8.encode label, _, ?_, encode_lineEnding text, ?_⟩
  · rw [hlabel, Text.Draft.encode_ofList]
  · rw [Text.Utf8.encode_append, Text.Utf8.encode_append, Text.Utf8.encode_of_decode hdecode]

/-- What generating and writing changes: the files of the marked tags, the documents, and the
directory `docs` if there is none. -/
structure MarksOnly (before after : Tree) (root : Route) (tags marked : List InlineTag) : Prop where
  proposed : marked.Sublist tags
  different : (marked.map target).Nodup
  files : ∀ tag ∈ marked, ∃ old since new, before.find? (target tag) = some (.file old since) ∧
    after.find? (target tag) = some (.file new .recently) ∧ Marks tag old new
  rest : ∀ place, place ∉ marked.map target → (∀ page, place ≠ pageRoute root page) →
    place ≠ docsRoute root → after.find? place = before.find? place
  docs : after.find? (docsRoute root) = before.find? (docsRoute root) ∨
    (before.find? (docsRoute root) = none ∧ after.find? (docsRoute root) = some .directory)

theorem docsEntry_cases (tree : Tree) (root : Route) (page : Page) :
    docsEntry tree root page = tree.find? (docsRoute root) ∨
      (tree.find? (docsRoute root) = none ∧ docsEntry tree root page = some .directory) := by
  unfold docsEntry
  split
  · next hmade => exact .inr ⟨hmade.2.2, rfl⟩
  · exact .inl rfl

/-- The text of a document that was generated. -/
def pageText (generation : Generation) : Page → String
  | .overview => generation.overview
  | .index => generation.index

/-- The run that writes documents and the tags of a scan, with all that it does. -/
theorem run_scanned (hroot : Project.root tree shell path = .ok root)
    (hplain : tree.IsPlain root) (cause : Git.Failure) (settings : Settings)
    (texts : Page → String) :
    ∃ report after,
      (write shell path (.ofString (texts .overview)) (.ofString (texts .index))
        (Scan.ofTree tree shell (.error cause) settings root).tags).run tree =
          (.ok report, after) ∧
      report.tagsWritten =
        (marking tree (Scan.ofTree tree shell (.error cause) settings root).tags).length ∧
      report.stopped = none ∧
      WriteEffect tree after root texts
        (Scan.ofTree tree shell (.error cause) settings root).tags := by
  obtain ⟨report, after, hrun, -, -, htags, hstopped, heffect⟩ := run_write_plain hroot hplain
    (fun tag htag => by
      obtain ⟨names, file, h⟩ := Scan.mem_tags hplain shell cause settings htag
      exact h.aims hplain)
    (Scan.nodup_tags hplain shell cause settings)
    (fun tag htag => by
      obtain ⟨names, file, h⟩ := Scan.mem_tags hplain shell cause settings htag
      exact h.target_eq hplain ▸ h.isTaggable.ne_pageRoute)
    (fun tag htag => by
      obtain ⟨names, file, h⟩ := Scan.mem_tags hplain shell cause settings htag
      exact h.target_eq hplain ▸ h.isTaggable.ne_docsRoute)
    texts
  exact ⟨report, after, hrun, htags, hstopped, heffect⟩

/-- Generating and writing puts a tag on top of as many files as are reported, at most as many as
the settings allow, and changes no other file but the documents. -/
theorem write_marksOnly [Yaml.Reader] (hroot : Project.root tree shell path = .ok root)
    (hplain : tree.IsPlain root) (cause : Git.Failure) (settings : Settings) :
    ∃ generation report after marked,
      generate tree shell (.error cause) path (some settings) = .ok generation ∧
      (write shell path (.ofString generation.overview) (.ofString generation.index)
        generation.scan.tags).run tree = (.ok report, after) ∧
      report.stopped = none ∧ marked.length = report.tagsWritten ∧
      marked.length ≤ settings.maxTags ∧
      MarksOnly tree after root generation.scan.tags marked := by
  obtain ⟨report, after, hrun, htags, hstopped, heffect⟩ :=
    run_scanned hroot hplain cause settings
      (pageText (.ofTree tree shell (.error cause) settings root))
  have hsub : (marking tree
      (Scan.ofTree tree shell (.error cause) settings root).tags).Sublist
      (Scan.ofTree tree shell (.error cause) settings root).tags := List.filter_sublist
  refine ⟨_, report, after, _, generate_eq hroot settings, hrun, hstopped, htags.symm, ?_, hsub,
    ?_, ?_, ?_, ?_⟩
  · exact hsub.length_le.trans (Scan.length_tags_le tree shell _ settings root)
  · exact (Scan.nodup_tags hplain shell cause settings).sublist (hsub.map target)
  · intro tag htag
    obtain ⟨htag, hsome⟩ := List.mem_filter.mp htag
    obtain ⟨new, hnew⟩ := Option.isSome_iff_exists.mp hsome
    obtain ⟨names, file, hproposes⟩ := Scan.mem_tags hplain shell cause settings htag
    obtain ⟨old, since, hfile, hmarks⟩ := marks_of_marked hplain hproposes hnew
    exact ⟨old, since, new, hfile, heffect.marked tag htag new hnew, hmarks⟩
  · intro place hplace hpage hdocs
    refine heffect.kept place hpage hdocs fun tag htag hsome hsame => hplace ?_
    exact List.mem_map.mpr ⟨tag, List.mem_filter.mpr ⟨htag, hsome⟩, hsame⟩
  · rw [heffect.docs]
    exact docsEntry_cases tree root .index

/-- A project with a file that has no tag, one with a tag, and one that is no text. -/
def mixedTree : Tree :=
  { entries := [(["p"], .directory),
      (["p", "index.ts"], .file (Text.Utf8.encode "export const a = 1\r\n".toList) (.at 0)),
      (["p", "lib"], .directory),
      (["p", "lib", "index.js"],
        .file (Text.Utf8.encode "# @atlas-entrypoint: Lib - entrypoint\n".toList) (.at 0)),
      (["p", "lib", "index.tsx"], .file [255] (.at 0))] }

theorem write_marksOnly_mixed :
    ∃ generation report after marked,
      generate mixedTree ⟨[], []⟩ (.error .missing) "/p" (some .standard) = .ok generation ∧
      (write ⟨[], []⟩ "/p" (.ofString generation.overview) (.ofString generation.index)
        generation.scan.tags).run mixedTree = (.ok report, after) ∧
      marked.length = report.tagsWritten ∧
      MarksOnly mixedTree after ["p"] generation.scan.tags marked := by
  have hroot : Project.root mixedTree ⟨[], []⟩ "/p" = .ok ["p"] := by decide +kernel
  have hplain : mixedTree.IsPlain ["p"] :=
    Tree.isPlain_of_entries (by decide) (by decide) (by decide)
  obtain ⟨generation, report, after, marked, hgenerate, hrun, -, hlength, -, hmarks⟩ :=
    write_marksOnly hroot hplain .missing .standard
  exact ⟨generation, report, after, marked, hgenerate, hrun, hlength, hmarks⟩

end SourceAtlas.Project
