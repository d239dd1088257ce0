import SourceAtlas.Proofs.Document.Lengths
import SourceAtlas.Proofs.Project.Round

/-!
# Rewritten documents

When the documents of a project are rewritten and nothing else changes, a scan finds the same files
as before. Only the lengths of the documents differ, so the next documents have the same number of
lines, and they are the same ones if the lengths do not differ either.
-/

namespace SourceAtlas.Project

open Scan

variable {shell : Shell} {cause : Git.Failure} {settings : Settings} {root names : Route}
  {before after : Tree}

/-- A file with the measures that another look at its path finds. -/
def remeasured (look : String → Option SourceFile) (file : SourceFile) : SourceFile :=
  match look file.path with
  | some other => { file with lineCount := other.lineCount, sizeBytes := other.sizeBytes }
  | none => file

/-- A file with the size that another look at its path finds. -/
def resized (look : String → Option SourceFile) (file : SourceFile) : SourceFile :=
  match look file.path with
  | some other => { file with sizeBytes := other.sizeBytes }
  | none => file

theorem keepsShape_remeasured (look : String → Option SourceFile) :
    KeepsShape (remeasured look) := by
  constructor <;> intro file <;> unfold remeasured <;> split <;> rfl

theorem keepsShape_resized (look : String → Option SourceFile) : KeepsShape (resized look) := by
  constructor <;> intro file <;> unfold resized <;> split <;> rfl

theorem remeasured_of_look {look : String → Option SourceFile} {file other : SourceFile}
    (hlook : look file.path = some other)
    (hother : other = { file with lineCount := other.lineCount, sizeBytes := other.sizeBytes }) :
    remeasured look file = other := by
  rw [remeasured, hlook]
  exact hother.symm

theorem remeasured_self {look : String → Option SourceFile} {file : SourceFile}
    (hlook : look file.path = some file) : remeasured look file = file :=
  remeasured_of_look hlook rfl

theorem remeasured_eq_resized {look : String → Option SourceFile} {file other : SourceFile}
    (hlook : look file.path = some other) (hlength : other.lineCount = file.lineCount) :
    remeasured look file = resized look file := by
  rw [remeasured, resized, hlook]
  dsimp only
  rw [hlength]

theorem lineCount_resized (look : String → Option SourceFile) (file : SourceFile) :
    (resized look file).lineCount = file.lineCount := by
  unfold resized
  split <;> rfl

/-- What is known about a Markdown file, but for its measures, does not depend on its bytes. -/
theorem ofBytes_markdown {path : String} (h : Language.ofPath? path = some .markdown)
    (location : String) (old new : List UInt8) :
    SourceFile.ofBytes path location new =
      { SourceFile.ofBytes path location old with
        lineCount := (SourceFile.ofBytes path location new).lineCount
        sizeBytes := (SourceFile.ofBytes path location new).sizeBytes } := by
  have himports : ∀ first second, Language.importsOf .markdown first =
      Language.importsOf .markdown second := fun _ _ => rfl
  have hexports : ∀ first second, Language.exportsOf .markdown first =
      Language.exportsOf .markdown second := fun _ _ => rfl
  unfold SourceFile.ofBytes
  dsimp only
  rw [h]
  dsimp only [Option.getD]
  rw [himports _ (Text.translateNewlines (Text.Utf8.decodeReplacing old)),
    hexports _ (Text.translateNewlines (Text.Utf8.decodeReplacing old))]

theorem lineCount_ofBytes (path location : String) (bytes : List UInt8) :
    (SourceFile.ofBytes path location bytes).lineCount =
      Text.lineCount (Text.translateNewlines (Text.Utf8.decodeReplacing bytes)) := by
  rw [SourceFile.ofBytes]

/-- The names of a document below the root. -/
def pageNames : Page → Route
  | .overview => ["CLAUDE.md"]
  | .index => ["docs", "repo-index.md"]

theorem pageRoute_eq (root : Route) (page : Page) : pageRoute root page = root ++ pageNames page := by
  cases page <;> rfl

theorem ofPath?_pageNames (page : Page) :
    Language.ofPath? (slashed (pageNames page)) = some .markdown := by
  cases page <;> decide +kernel

/-- Documents that are there get other bytes, and nothing else changes. -/
structure Rewrites (before after : Tree) (root : Route) : Prop where
  plain : before.IsPlain root
  plainAfter : after.IsPlain root
  frame : ∀ place, (∀ page, place ≠ pageRoute root page) → after.find? place = before.find? place
  pages : ∀ page, after.find? (pageRoute root page) = before.find? (pageRoute root page) ∨
    ∃ old since new modified, before.find? (pageRoute root page) = some (.file old since) ∧
      after.find? (pageRoute root page) = some (.file new modified)

namespace Rewrites

variable (h : Rewrites before after root)

include h

theorem cases_names (names : Route) :
    after.find? (root ++ names) = before.find? (root ++ names) ∨
      ∃ page old since new modified, names = pageNames page ∧
        before.find? (root ++ names) = some (.file old since) ∧
        after.find? (root ++ names) = some (.file new modified) := by
  by_cases hpage : ∃ page, root ++ names = pageRoute root page
  · obtain ⟨page, hroute⟩ := hpage
    have hnames : names = pageNames page := by
      rw [pageRoute_eq] at hroute
      exact List.append_cancel_left hroute
    rw [hroute]
    rcases h.pages page with hsame | ⟨old, since, new, modified, hold, hnew⟩
    · exact .inl hsame
    · exact .inr ⟨page, old, since, new, modified, hnames, hold, hnew⟩
  · exact .inl (h.frame _ fun page hroute => hpage ⟨page, hroute⟩)

theorem isWalked_iff (names : Route) : before.IsWalked root names ↔ after.IsWalked root names := by
  have hholds : before.HoldsFile root names ↔ after.HoldsFile root names := by
    unfold Tree.HoldsFile
    rcases h.cases_names names with hsame | ⟨page, old, since, new, modified, -, hold, hnew⟩
    · rw [hsame]
    · exact iff_of_true ⟨old, since, hold⟩ ⟨new, modified, hnew⟩
  exact ⟨fun hwalked => ⟨hwalked.entered, hwalked.listed, hholds.mp hwalked.file⟩,
    fun hwalked => ⟨hwalked.entered, hwalked.listed, hholds.mpr hwalked.file⟩⟩

theorem fileAt?_after (shell : Shell) {path : String}
    (hpath : ∃ names, before.IsWalked root names ∧ path = slashed names) :
    fileAt? after shell root path =
      (fileAt? before shell root path).map (remeasured (fileAt? after shell root)) := by
  obtain ⟨names, ⟨-, -, old, since, hold⟩, rfl⟩ := hpath
  have hbefore := fileAt?_slashed h.plain.sound shell hold
  by_cases husable : (Location.ofRoute (root ++ names)).IsUsable
  · rw [if_pos husable] at hbefore
    have hpath := path_of_fileAt? hbefore
    rcases h.cases_names names with hsame | ⟨page, -, -, new, modified, hpage, -, hnew⟩
    · have hafter := fileAt?_slashed h.plainAfter.sound shell (hsame.trans hold)
      rw [if_pos husable] at hafter
      rw [hbefore, hafter, Option.map_some, remeasured_self ((congrArg _ hpath).trans hafter)]
    · have hafter := fileAt?_slashed h.plainAfter.sound shell hnew
      rw [if_pos husable] at hafter
      have hmarkdown := ofPath?_pageNames page
      rw [← hpage] at hmarkdown
      rw [hbefore, hafter, Option.map_some, remeasured_of_look ((congrArg _ hpath).trans hafter)
        (ofBytes_markdown hmarkdown _ old new)]
  · rw [if_neg husable] at hbefore
    have hafter : fileAt? after shell root (slashed names) = none := by
      rcases h.cases_names names with hsame | ⟨-, -, -, new, modified, -, -, hnew⟩
      · rw [fileAt?_slashed h.plainAfter.sound shell (hsame.trans hold), if_neg husable]
      · rw [fileAt?_slashed h.plainAfter.sound shell hnew, if_neg husable]
    rw [hbefore, hafter, Option.map_none]

/-- A scan finds the same files, with other measures. -/
theorem files_after (shell : Shell) (cause : Git.Failure) (settings : Settings) :
    (Scan.ofTree after shell (.error cause) settings root).files =
      (Scan.ofTree before shell (.error cause) settings root).files.map
        (remeasured (fileAt? after shell root)) := by
  rw [files_ofTree, files_ofTree, List.map_filterMap,
    Listing.paths_congr h.plain h.plainAfter shell cause settings.excludes h.isWalked_iff]
  refine List.filterMap_congr fun path hpath => ?_
  exact h.fileAt?_after shell ((Listing.mem_paths h.plain.isOrdinary shell cause _ path).mp hpath).2

/-- The next documents have as many lines. -/
theorem lineCount_documents (shell : Shell) (cause : Git.Failure) (settings : Settings)
    (page : Page) :
    Text.lineCount (Text.translateNewlines
        (documents shell cause settings root after page).toList) =
      Text.lineCount (Text.translateNewlines
        (documents shell cause settings root before page).toList) := by
  unfold documents
  rw [summary_ofTree, summary_ofTree, h.files_after shell cause settings]
  exact Page.lineCount_text_map (keepsShape_remeasured _) settings page _ _

/-- The next documents are the same if the rewritten ones have as many lines as before. -/
theorem documents_eq (shell : Shell) (cause : Git.Failure) (settings : Settings)
    (hlength : ∀ page old since new modified,
      before.find? (pageRoute root page) = some (.file old since) →
      after.find? (pageRoute root page) = some (.file new modified) →
      Text.lineCount (Text.translateNewlines (Text.Utf8.decodeReplacing new)) =
        Text.lineCount (Text.translateNewlines (Text.Utf8.decodeReplacing old)))
    (page : Page) :
    documents shell cause settings root after page =
      documents shell cause settings root before page := by
  have hfiles : (Scan.ofTree after shell (.error cause) settings root).files =
      (Scan.ofTree before shell (.error cause) settings root).files.map
        (resized (fileAt? after shell root)) := by
    rw [h.files_after shell cause settings]
    refine List.map_congr_left fun file hfile => ?_
    obtain ⟨names, -, -, hknows⟩ := (mem_files h.plain.isOrdinary shell cause settings file).mp hfile
    have hpath := hknows.path
    obtain ⟨old, since, hold, husable, hfile⟩ := hknows
    rcases h.cases_names names with hsame | ⟨page, -, -, new, modified, hpage, -, hnew⟩
    · have hafter := fileAt?_slashed h.plainAfter.sound shell (hsame.trans hold)
      rw [if_pos husable, ← hfile] at hafter
      exact remeasured_eq_resized ((congrArg _ hpath).trans hafter) rfl
    · have hafter := fileAt?_slashed h.plainAfter.sound shell hnew
      rw [if_pos husable] at hafter
      refine remeasured_eq_resized ((congrArg _ hpath).trans hafter) ?_
      rw [hfile, lineCount_ofBytes, lineCount_ofBytes]
      rw [hpage, ← pageRoute_eq] at hold hnew
      exact hlength page old since new modified hold hnew
  unfold documents
  rw [summary_ofTree, summary_ofTree, hfiles]
  exact Page.text_map (keepsShape_resized _) (lineCount_resized _) settings page _ _

end Rewrites

end SourceAtlas.Project
