import SourceAtlas.Proofs.Project.Rewriting
import SourceAtlas.Proofs.Project.Root

/-!
# Round after round

A project without links stays one. The second round writes no tag any more, so from then on only the
documents are rewritten. The third round shows the lengths of the documents of the first two; later
documents have as many lines as those, so they are the documents of the third round.
-/

namespace SourceAtlas.Project

open Scan

variable {shell : Shell} {cause : Git.Failure} {settings : Settings} {root : Route}
  {path : String} {tree first second before after : Tree}

/-! ## Three rounds in a row -/

/-- After a round the next one rewrites documents and does nothing else. -/
theorem IsRound.rewrites (h : IsRound shell cause settings root first before)
    (hnext : IsRound shell cause settings root before after) : Rewrites before after root where
  plain := hnext.plain
  plainAfter := hnext.effect.plain
  frame _ hplace := h.frame hnext hplace
  pages page := by
    by_cases hopen : IsOpen before root page
    · have hold := h.effect.opened page ((h.isOpen_iff page).mp hopen)
      exact .inr ⟨_, _, _, _, hold, hnext.effect.opened page hopen⟩
    · exact .inl (hnext.effect.closed page hopen)

/-- A document that two rounds rewrite keeps its number of lines. -/
theorem IsRound.lineCount_page (hfirst : IsRound shell cause settings root first second)
    (h : IsRound shell cause settings root second before)
    (hnext : IsRound shell cause settings root before after) {page : Page} {old new : List UInt8}
    {since modified : Modified} (hold : before.find? (pageRoute root page) = some (.file old since))
    (hnew : after.find? (pageRoute root page) = some (.file new modified)) :
    Text.lineCount (Text.translateNewlines (Text.Utf8.decodeReplacing new)) =
      Text.lineCount (Text.translateNewlines (Text.Utf8.decodeReplacing old)) := by
  by_cases hopen : IsOpen before root page
  · rw [h.effect.opened page ((h.isOpen_iff page).mp hopen)] at hold
    rw [hnext.effect.opened page hopen] at hnew
    cases hold
    cases hnew
    rw [pageBytes, pageBytes, Text.Utf8.decodeReplacing_encode, Text.Utf8.decodeReplacing_encode]
    exact (hfirst.rewrites h).lineCount_documents shell cause settings page
  · rw [hnext.effect.closed page hopen, hold] at hnew
    cases hnew
    rfl

/-- After three rounds the documents are the same as after two. -/
theorem IsRound.documents_eq (hfirst : IsRound shell cause settings root first second)
    (h : IsRound shell cause settings root second before)
    (hnext : IsRound shell cause settings root before after) (page : Page) :
    documents shell cause settings root after page =
      documents shell cause settings root before page :=
  (h.rewrites hnext).documents_eq shell cause settings
    (fun _ _ _ _ _ hold hnew => hfirst.lineCount_page h hnext hold hnew) page

/-! ## Projects without links -/

/-- The path names a plain project in a tree without links. -/
structure IsProject (shell : Shell) (path : String) (root : Route) (tree : Tree) : Prop where
  found : Project.root tree shell path = .ok root
  plain : tree.IsPlain root
  linkless : tree.IsLinkless

/-- Writing makes no links. -/
theorem WriteEffect.isLinkless {texts : Page → String} {tags : List InlineTag}
    (h : WriteEffect before after root texts tags) (hlinkless : before.IsLinkless) :
    after.IsLinkless := by
  intro place goal hlink
  by_cases hpage : ∃ page, place = pageRoute root page
  · obtain ⟨page, rfl⟩ := hpage
    by_cases hopen : IsOpen before root page
    · rw [h.opened page hopen] at hlink
      cases hlink
    · rw [h.closed page hopen] at hlink
      exact hlinkless _ _ hlink
  by_cases hdocs : place = docsRoute root
  · subst hdocs
    rw [h.docs] at hlink
    rcases docsEntry_cases before root .index with hkept | ⟨-, hmade⟩
    · exact hlinkless _ _ (hkept ▸ hlink)
    · rw [hmade] at hlink
      cases hlink
  by_cases hmark : ∃ tag ∈ tags, (marked? before tag).isSome ∧ target tag = place
  · obtain ⟨tag, htag, hsome, rfl⟩ := hmark
    obtain ⟨bytes, hbytes⟩ := Option.isSome_iff_exists.mp hsome
    rw [h.marked tag htag bytes hbytes] at hlink
    cases hlink
  · rw [h.kept place (fun page hsame => hpage ⟨page, hsame⟩) hdocs
      fun tag htag hsome hsame => hmark ⟨tag, htag, hsome, hsame⟩] at hlink
    exact hlinkless _ _ hlink

/-! ## Runs -/

/-- Generate the documents of the project at a path, and write them and the proposed tags. -/
def round (shell : Shell) (cause : Git.Failure) (settings : Settings) (path : String) :
    StateM Tree (Except Failure (Generation × WriteReport)) := do
  match generate (← get) shell (.error cause) path (some settings) with
  | .error failure => return .error failure
  | .ok generation =>
      let report ← write shell path (.ofString generation.overview) (.ofString generation.index)
        generation.scan.tags
      return report.map (Prod.mk generation)

/-- The tree after a number of rounds. -/
def treeAfter (shell : Shell) (cause : Git.Failure) (settings : Settings) (path : String)
    (tree : Tree) : Nat → Tree
  | 0 => tree
  | rounds + 1 =>
      ((round shell cause settings path).run (treeAfter shell cause settings path tree rounds)).2

theorem overview_ofTree (tree : Tree) :
    (Generation.ofTree tree shell (.error cause) settings root).overview =
      documents shell cause settings root tree .overview := by
  rw [Generation.ofTree, documents]

theorem index_ofTree (tree : Tree) :
    (Generation.ofTree tree shell (.error cause) settings root).index =
      documents shell cause settings root tree .index := by
  rw [Generation.ofTree, documents]

/-- A round generates and writes. -/
theorem run_round_of_ok {generation : Generation} {report : WriteReport}
    (hgenerate : generate tree shell (.error cause) path (some settings) = .ok generation)
    (hwrite : (write shell path (.ofString generation.overview) (.ofString generation.index)
      generation.scan.tags).run tree = (.ok report, after)) :
    (round shell cause settings path).run tree = (.ok (generation, report), after) := by
  unfold round
  rw [StateT.run_bind, StateT.run_get, pure_bind]
  dsimp only
  rw [hgenerate]
  dsimp only
  -- The kernel would look for the result by running the program.
  generalize write shell path (.ofString generation.overview) (.ofString generation.index)
    generation.scan.tags = run at hwrite ⊢
  rw [StateT.run_bind, hwrite]
  rfl

theorem run_round (h : IsProject shell path root tree) (cause : Git.Failure)
    (settings : Settings) :
    ∃ report after,
      (round shell cause settings path).run tree =
        (.ok (.ofTree tree shell (.error cause) settings root, report), after) ∧
      report.tagsWritten =
        (marking tree (Scan.ofTree tree shell (.error cause) settings root).tags).length ∧
      report.stopped = none ∧ IsRound shell cause settings root tree after ∧
      IsProject shell path root after := by
  obtain ⟨report, after, hrun, htags, hstopped, heffect⟩ :=
    run_scanned h.found h.plain cause settings (documents shell cause settings root tree)
  have hlinkless := heffect.isLinkless h.linkless
  refine ⟨report, after, run_round_of_ok (generate_eq h.found settings) ?_, htags, hstopped,
    ⟨h.plain, heffect⟩, root_of_linkless h.linkless hlinkless heffect.plain h.found,
    heffect.plain, hlinkless⟩
  rw [overview_ofTree, index_ofTree]
  exact hrun

theorem isProject_treeAfter (h : IsProject shell path root tree) (cause : Git.Failure)
    (settings : Settings) (rounds : Nat) :
    IsProject shell path root (treeAfter shell cause settings path tree rounds) := by
  induction rounds with
  | zero => exact h
  | succ rounds ih =>
      obtain ⟨report, after, hrun, -, -, -, hafter⟩ := run_round ih cause settings
      rw [treeAfter, hrun]
      exact hafter

theorem isRound_treeAfter (h : IsProject shell path root tree) (cause : Git.Failure)
    (settings : Settings) (rounds : Nat) :
    IsRound shell cause settings root (treeAfter shell cause settings path tree rounds)
      (treeAfter shell cause settings path tree (rounds + 1)) := by
  obtain ⟨report, after, hrun, -, -, hround, -⟩ :=
    run_round (isProject_treeAfter h cause settings rounds) cause settings
  rw [treeAfter, hrun]
  exact hround

/-- From the second round on no tag marks a file. -/
theorem marking_treeAfter (h : IsProject shell path root tree) (cause : Git.Failure)
    (settings : Settings) (rounds : Nat) :
    marking (treeAfter shell cause settings path tree (rounds + 1))
      (Scan.ofTree (treeAfter shell cause settings path tree (rounds + 1)) shell (.error cause)
        settings root).tags = [] := by
  refine List.filter_eq_nil_iff.mpr fun tag htag hsome => ?_
  rw [(isRound_treeAfter h cause settings rounds).settled htag] at hsome
  cases hsome

/-- From the third round on the documents are the same. -/
theorem documents_treeAfter (h : IsProject shell path root tree) (cause : Git.Failure)
    (settings : Settings) (rounds : Nat) (page : Page) :
    documents shell cause settings root (treeAfter shell cause settings path tree (rounds + 2))
        page =
      documents shell cause settings root (treeAfter shell cause settings path tree 2) page := by
  have hround := isRound_treeAfter h cause settings
  induction rounds with
  | zero => rfl
  | succ rounds ih =>
      rw [← ih]
      exact (hround rounds).documents_eq (hround (rounds + 1)) (hround (rounds + 2)) page

/-- Rounds converge: from the second one on no tag is written and nothing but the documents changes,
and from the third one on the documents are the same. -/
theorem round_converges (hroot : Project.root tree shell path = .ok root)
    (hplain : tree.IsPlain root) (hlinkless : tree.IsLinkless) (cause : Git.Failure)
    (settings : Settings) :
    ∃ generation : Nat → Generation, ∃ report : Nat → WriteReport,
      (∀ rounds, (report rounds).stopped = none ∧
        (round shell cause settings path).run (treeAfter shell cause settings path tree rounds) =
          (.ok (generation rounds, report rounds),
            treeAfter shell cause settings path tree (rounds + 1))) ∧
      (∀ rounds, 1 ≤ rounds → (report rounds).tagsWritten = 0 ∧
        ∀ place, (∀ page, place ≠ pageRoute root page) →
          (treeAfter shell cause settings path tree (rounds + 1)).find? place =
            (treeAfter shell cause settings path tree rounds).find? place) ∧
      ∀ rounds, 2 ≤ rounds → (generation rounds).overview = (generation 2).overview ∧
        (generation rounds).index = (generation 2).index := by
  have hproject : IsProject shell path root tree := ⟨hroot, hplain, hlinkless⟩
  choose report after hrun htags hstopped _ _ using fun rounds =>
    run_round (isProject_treeAfter hproject cause settings rounds) cause settings
  have hround := isRound_treeAfter hproject cause settings
  refine ⟨fun rounds => .ofTree (treeAfter shell cause settings path tree rounds) shell
    (.error cause) settings root, report, fun rounds => ⟨hstopped rounds, ?_⟩, ?_, ?_⟩
  · rw [treeAfter, hrun]
  · intro rounds hrounds
    obtain ⟨earlier, rfl⟩ := Nat.exists_eq_add_of_le' hrounds
    refine ⟨?_, fun place hplace => (hround earlier).frame (hround (earlier + 1)) hplace⟩
    rw [htags, marking_treeAfter hproject cause settings earlier, List.length_nil]
  · intro rounds hrounds
    obtain ⟨earlier, rfl⟩ := Nat.exists_eq_add_of_le' hrounds
    dsimp only
    rw [overview_ofTree, overview_ofTree, index_ofTree, index_ofTree]
    exact ⟨documents_treeAfter hproject cause settings earlier .overview,
      documents_treeAfter hproject cause settings earlier .index⟩

theorem round_converges_mixed :
    Project.root mixedTree ⟨[], []⟩ "/p" = .ok ["p"] ∧ mixedTree.IsPlain ["p"] ∧
      mixedTree.IsLinkless ∧
      ∃ generation : Nat → Generation, ∃ report : Nat → WriteReport,
        (∀ rounds, 1 ≤ rounds → (report rounds).tagsWritten = 0) ∧
        ∀ rounds, 2 ≤ rounds → (generation rounds).overview = (generation 2).overview ∧
          (generation rounds).index = (generation 2).index ∧
          (round ⟨[], []⟩ .missing .standard "/p").run
            (treeAfter ⟨[], []⟩ .missing .standard "/p" mixedTree rounds) =
              (.ok (generation rounds, report rounds),
                treeAfter ⟨[], []⟩ .missing .standard "/p" mixedTree (rounds + 1)) := by
  have hroot : Project.root mixedTree ⟨[], []⟩ "/p" = .ok ["p"] := by decide +kernel
  have hplain : mixedTree.IsPlain ["p"] :=
    Tree.isPlain_of_entries (by decide) (by decide) (by decide)
  have hlinkless : mixedTree.IsLinkless := Tree.isLinkless_of_entries (by decide) (by decide)
  obtain ⟨generation, report, hrun, htags, hpages⟩ :=
    round_converges hroot hplain hlinkless .missing .standard
  refine ⟨hroot, hplain, hlinkless, generation, report, fun rounds hrounds =>
    (htags rounds hrounds).1, fun rounds hrounds => ?_⟩
  exact ⟨(hpages rounds hrounds).1, (hpages rounds hrounds).2, (hrun rounds).2⟩

end SourceAtlas.Project
