import SourceAtlas.Proofs.Text.Utf8
import SourceAtlas.Proofs.Writing.Marks

/-!
# What a whole run changes in a plain project

The documents are written first and the tags after them. The files that tags aim at are no documents,
so every part of the run does what it would do alone.
-/

namespace SourceAtlas

namespace Project

open Disk

variable {shell : Shell} {root : Route} {tag : InlineTag} {tags : List InlineTag}
  {texts : Page → String} {bytes : List UInt8} {tree before after : Tree} {page : Page}

/-- The bytes of a document. -/
def pageBytes (texts : Page → String) (page : Page) : List UInt8 :=
  Text.Utf8.encode (texts page).toList

/-- What writing both documents and tags changes. -/
structure WriteEffect (before after : Tree) (root : Route) (texts : Page → String)
    (tags : List InlineTag) : Prop where
  plain : after.IsPlain root
  opened : ∀ page, IsOpen before root page →
    after.find? (pageRoute root page) = some (.file (pageBytes texts page) .recently)
  closed : ∀ page, ¬ IsOpen before root page →
    after.find? (pageRoute root page) = before.find? (pageRoute root page)
  docs : after.find? (docsRoute root) = docsEntry before root .index
  marked : ∀ tag ∈ tags, ∀ bytes, marked? before tag = some bytes →
    after.find? (target tag) = some (.file bytes .recently)
  kept : ∀ place, (∀ page, place ≠ pageRoute root page) → place ≠ docsRoute root →
    (∀ tag ∈ tags, (marked? before tag).isSome → target tag ≠ place) →
    after.find? place = before.find? place

/-- A file aside from the document stays as it is. -/
theorem PageEffect.find?_file (h : PageEffect before after root page bytes) {place : Route}
    {old : List UInt8} {modified : Modified}
    (hfile : before.find? place = some (.file old modified)) (hne : place ≠ pageRoute root page) :
    after.find? place = before.find? place := by
  by_cases hdocs : place = docsRoute root
  · subst hdocs
    rw [h.docs, docsEntry, if_neg]
    rintro ⟨-, -, hnone⟩
    rw [hfile] at hnone
    cases hnone
  · exact h.frame place hne hdocs

theorem docsEntry_overview (tree : Tree) (root : Route) :
    docsEntry tree root .overview = tree.find? (docsRoute root) := if_neg fun h => nomatch h.1

theorem pageRoute_ne (root : Route) : pageRoute root .index ≠ pageRoute root .overview := by
  simp [pageRoute]

section Pages

variable {between : Tree} {overview index : List UInt8}

/-- The overview does not decide whether the index can be written. -/
theorem PageEffect.isOpen_index (h : PageEffect before between root .overview overview) :
    IsOpen between root .index ↔ IsOpen before root .index := by
  have hindex := h.frame _ (pageRoute_ne root) (pageRoute_ne_docsRoute root .index).symm
  have hdocs := h.docs
  rw [docsEntry_overview] at hdocs
  unfold IsOpen
  rw [hindex, hdocs]

theorem PageEffect.docsEntry_index (h : PageEffect before between root .overview overview) :
    docsEntry between root .index = docsEntry before root .index := by
  have hdocs := h.docs
  rw [docsEntry_overview] at hdocs
  unfold docsEntry
  rw [hdocs]

/-- The parts of a run put together. -/
theorem writeEffect_of_parts {middle : Tree}
    (hoverview : PageEffect before between root .overview (pageBytes texts .overview))
    (hindex : PageEffect between middle root .index (pageBytes texts .index))
    (hmarks : MarkEffect middle after root tags)
    (hfiles : ∀ tag ∈ tags, middle.find? (target tag) = before.find? (target tag))
    (hpages : ∀ tag ∈ tags, ∀ page, target tag ≠ pageRoute root page)
    (hdocs : ∀ tag ∈ tags, target tag ≠ docsRoute root) :
    WriteEffect before after root texts tags := by
  have hsame : ∀ tag ∈ tags, marked? middle tag = marked? before tag := fun tag htag =>
    marked?_congr (hfiles tag htag)
  have hpage : ∀ page, after.find? (pageRoute root page) = middle.find? (pageRoute root page) :=
    fun page => hmarks.kept _ fun tag htag _ => hpages tag htag page
  have hfirst : middle.find? (pageRoute root .overview) =
      between.find? (pageRoute root .overview) :=
    hindex.frame _ (pageRoute_ne root).symm (pageRoute_ne_docsRoute root .overview).symm
  have hsecond : between.find? (pageRoute root .index) = before.find? (pageRoute root .index) :=
    hoverview.frame _ (pageRoute_ne root) (pageRoute_ne_docsRoute root .index).symm
  refine ⟨hmarks.plain, fun page hopen => ?_, fun page hclosed => ?_, ?_, ?_, ?_⟩
  · rw [hpage]
    cases page with
    | overview => rw [hfirst, hoverview.opened hopen]
    | index => exact hindex.opened (hoverview.isOpen_index.mpr hopen)
  · rw [hpage]
    cases page with
    | overview => rw [hfirst, hoverview.closed hclosed]
    | index =>
        rw [hindex.closed fun hopen => hclosed (hoverview.isOpen_index.mp hopen), hsecond]
  · rw [hmarks.kept _ fun tag htag _ => hdocs tag htag, hindex.docs, hoverview.docsEntry_index]
  · exact fun tag htag bytes hmarked =>
      hmarks.marked tag htag bytes ((hsame tag htag).trans hmarked)
  · intro place hplace hdocs hunmarked
    rw [hmarks.kept place fun tag htag hmarked => hunmarked tag htag (hsame tag htag ▸ hmarked),
      hindex.frame place (hplace .index) hdocs, hoverview.frame place (hplace .overview) hdocs]

end Pages

/-- A whole run in a plain project, for tags that aim at different files aside from the
documents. -/
theorem run_write_plain {path : String} (hroot : Project.root tree shell path = .ok root)
    (hplain : tree.IsPlain root) (haims : ∀ tag ∈ tags, AimsAt tree root tag)
    (hnodup : (tags.map target).Nodup)
    (hpages : ∀ tag ∈ tags, ∀ page, target tag ≠ pageRoute root page)
    (hdocs : ∀ tag ∈ tags, target tag ≠ docsRoute root) (texts : Page → String) :
    ∃ report after,
      (write shell path (.ofString (texts .overview)) (.ofString (texts .index)) tags).run tree =
        (.ok report, after) ∧
      (report.overviewWritten = true ↔ IsOpen tree root .overview) ∧
      (report.indexWritten = true ↔ IsOpen tree root .index) ∧
      report.tagsWritten = (marking tree tags).length ∧ report.stopped = none ∧
      WriteEffect tree after root texts tags := by
  have hwritten : ∀ result : Except DiskFailure Unit, (failure? result).isNone = true ↔
      result = .ok () := by
    intro result
    cases result <;> simp [failure?]
  have hstart : (Volume.mk tree []).tree.IsPlain root := hplain
  obtain ⟨overviewResult, overviewEdits, hoverview, hoverviewOk, hfirst⟩ :=
    runOn_writeOverview_plain hstart shell (Text.Draft.encode_ofList (texts .overview).toList)
  have hbetween : ((Volume.mk tree []).edit overviewEdits).tree.IsPlain root := hfirst.plain
  obtain ⟨indexResult, indexEdits, hindex, hindexOk, hsecond⟩ :=
    runOn_writeIndex_plain hbetween shell (Text.Draft.encode_ofList (texts .index).toList)
  have hlater : (((Volume.mk tree []).edit overviewEdits).edit indexEdits).tree.IsPlain root :=
    hsecond.plain
  have hfiles : ∀ tag ∈ tags,
      (((Volume.mk tree []).edit overviewEdits).edit indexEdits).tree.find? (target tag) =
        tree.find? (target tag) := by
    intro tag htag
    obtain ⟨old, modified, hfile⟩ := (haims tag htag).file
    have hkept := hfirst.find?_file hfile (hpages tag htag .overview)
    exact (hsecond.find?_file (hkept.trans hfile) (hpages tag htag .index)).trans hkept
  obtain ⟨outcomes, edits, hrun, hcount, hmarks⟩ := run_writeTags_plain hlater
    (fun tag htag => (haims tag htag).of_find? (hfiles tag htag)) hnodup shell
  have hmarking : marking (((Volume.mk tree []).edit overviewEdits).edit indexEdits).tree tags =
      marking tree tags :=
    List.filter_congr fun tag htag => by rw [marked?_congr (hfiles tag htag)]
  refine ⟨⟨root, failure? overviewResult, failure? indexResult, outcomes, none⟩,
    ((((Volume.mk tree []).edit overviewEdits).edit indexEdits).edit edits).tree, ?_,
    (hwritten _).trans hoverviewOk, (hwritten _).trans (hindexOk.trans hfirst.isOpen_index), ?_,
    rfl, ?_⟩
  · rw [run_write, hroot]
    dsimp only
    rw [run_writeIn]
    dsimp only [Text.Draft.ofString]
    rw [hoverview, hindex, hrun]
  · rw [← hmarking, ← hcount, List.countP_eq_length_filter]
    rfl
  · exact writeEffect_of_parts hfirst hsecond hmarks hfiles hpages hdocs

end Project

end SourceAtlas
