import SourceAtlas.Proofs.Project.Marking
import SourceAtlas.Proofs.Tag.Growth

/-!
# Rounds of generating and writing

In one round the documents and tags of a scan are written. The files that get a tag are among the
best ones and become better by it, so after the round the same files are the best, and none of them
can get a tag in the next round.
-/

namespace SourceAtlas.Project

open Scan

variable {shell : Shell} {cause : Git.Failure} {settings : Settings} {root names : Route}
  {before after : Tree} {tag : InlineTag} {file : SourceFile}

/-- The documents that a scan of the tree makes. -/
def documents (shell : Shell) (cause : Git.Failure) (settings : Settings) (root : Route)
    (tree : Tree) (page : Page) : String :=
  page.text (nameOf root) (Scan.ofTree tree shell (.error cause) settings root).summary

/-- A round leads from one tree to another one. -/
structure IsRound (shell : Shell) (cause : Git.Failure) (settings : Settings) (root : Route)
    (before after : Tree) : Prop where
  plain : before.IsPlain root
  effect : WriteEffect before after root (documents shell cause settings root before)
    (Scan.ofTree before shell (.error cause) settings root).tags

/-! ## What becomes of files -/

/-- The bytes of a file and its place say whether a proposed tag marks it. -/
def isMarkable (place : Route) (bytes : List UInt8) : Bool :=
  (Tag.find? (Text.translateNewlines (Text.Utf8.decodeReplacing bytes))).isNone &&
    Tree.takesTemporary place && (Text.Utf8.decode bytes).toOption.isSome

theorem marked?_isSome {tree : Tree} {scan : Scan} {limit : Int} (hplain : tree.IsPlain root)
    (hproposes : Proposes tree shell root scan limit tag names file) {bytes : List UInt8}
    {modified : Modified} (hfind : tree.find? (root ++ names) = some (.file bytes modified)) :
    (marked? tree tag).isSome = isMarkable (root ++ names) bytes := by
  obtain ⟨label, hlabel⟩ := (hproposes.aims hplain).label
  unfold marked? isMarkable
  rw [hproposes.target_eq hplain, hfind, ← hproposes.selected hplain hfind]
  dsimp only
  cases tag.selected && Tree.takesTemporary (root ++ names) with
  | false => rfl
  | true =>
      cases Text.Utf8.decode bytes with
      | error cause => rfl
      | ok text =>
          rw [if_pos rfl, Bool.true_and]
          change (retagged tag text).isSome = true
          rw [retagged, encode_retag hlabel]
          rfl

/-- A file that can carry a tag is marked in a round or stays as it is. -/
theorem IsRound.kept_or_marked (h : IsRound shell cause settings root before after)
    (htaggable : IsTaggable names) :
    after.find? (root ++ names) = before.find? (root ++ names) ∨
      ∃ tag file bytes, Proposes before shell root
          (Scan.ofTree before shell (.error cause) settings root) settings.maxTags tag names file ∧
        marked? before tag = some bytes ∧
        after.find? (root ++ names) = some (.file bytes .recently) := by
  by_cases hmark : ∃ tag ∈ (Scan.ofTree before shell (.error cause) settings root).tags,
      (marked? before tag).isSome ∧ target tag = root ++ names
  · obtain ⟨tag, htag, hsome, htarget⟩ := hmark
    obtain ⟨bytes, hbytes⟩ := Option.isSome_iff_exists.mp hsome
    obtain ⟨others, file, hproposes⟩ := mem_tags h.plain shell cause settings htag
    rw [hproposes.target_eq h.plain] at htarget
    obtain rfl := List.append_cancel_left htarget
    refine .inr ⟨tag, file, bytes, hproposes, hbytes, ?_⟩
    rw [← hproposes.target_eq h.plain]
    exact h.effect.marked tag htag bytes hbytes
  · refine .inl (h.effect.kept _ htaggable.ne_pageRoute htaggable.ne_docsRoute ?_)
    exact fun tag htag hsome hsame => hmark ⟨tag, htag, hsome, hsame⟩

/-- What a scan knows about a file at a place depends on its bytes. -/
theorem knows_of_find? {bytes : List UInt8} {modified : Modified}
    (hfind : after.find? (root ++ names) = some (.file bytes modified))
    (husable : (Location.ofRoute (root ++ names)).IsUsable) :
    Knows after root names
      (.ofBytes (slashed names) (Location.ofRoute (root ++ names)).text bytes) :=
  ⟨bytes, modified, hfind, husable, rfl⟩

/-- A marked file has a tag. -/
theorem tagged_of_marked {scan : Scan} {limit : Int} (hplain : before.IsPlain root)
    (hproposes : Proposes before shell root scan limit tag names file) {bytes : List UInt8}
    (hmarked : marked? before tag = some bytes) :
    (Tag.find? (Text.translateNewlines (Text.Utf8.decodeReplacing bytes))).isSome := by
  obtain ⟨old, since, hfind, -, -⟩ := hproposes.knows
  obtain ⟨domain, hlabel⟩ := hproposes.label
  obtain ⟨text, -, -, rfl⟩ := untagged_of_marked hplain hproposes hfind hlabel hmarked
  obtain ⟨start, label, hstart, hsplit⟩ := InlineTag.exists_isStart file domain
    (", ".intercalate ((Sign.ofFile file).map Sign.name))
  rw [Text.Utf8.decodeReplacing_encode, hsplit, List.append_assoc]
  exact Tag.find?_translated_of_start hstart _

/-- A marked file has grown. -/
theorem grows_of_marked {scan : Scan} {limit : Int} (hplain : before.IsPlain root)
    (hproposes : Proposes before shell root scan limit tag names file) {bytes : List UInt8}
    (hmarked : marked? before tag = some bytes) :
    Grows file (.ofBytes (slashed names) (Location.ofRoute (root ++ names)).text bytes) := by
  obtain ⟨old, since, hfind, -, hfile⟩ := hproposes.knows
  obtain ⟨domain, hlabel⟩ := hproposes.label
  obtain ⟨text, hdecode, -, rfl⟩ := untagged_of_marked hplain hproposes hfind hlabel hmarked
  have htext := translate_tagged file domain (Sign.ofFile file) text
  rw [← Text.Utf8.decodeReplacing_of_decode hdecode] at htext
  have hgrows := grows_ofBytes (slashed names) (Location.ofRoute (root ++ names)).text
    ((congrArg Text.translateNewlines (Text.Utf8.decodeReplacing_encode _)).trans htext)
  rw [← hfile, Text.Utf8.decodeReplacing_of_decode hdecode] at hgrows
  exact hgrows

/-! ## The best files after a round -/

theorem isTaggable_of_candidate {tree : Tree} (hknows : Knows tree root names file)
    (hcandidate : RankedFile.isCandidate file = true) : IsTaggable names := by
  rw [RankedFile.isCandidate_iff, hknows.language] at hcandidate
  exact hcandidate.1

theorem knows_unique {tree : Tree} {other : SourceFile} (hfile : Knows tree root names file)
    (hother : Knows tree root names other) : file = other := by
  obtain ⟨bytes, modified, hfind, -, hfile⟩ := hfile
  obtain ⟨others, since, hfound, -, hother⟩ := hother
  rw [hfind] at hfound
  cases hfound
  rw [hfile, hother]

/-- A candidate is there after the round, with at least its score. -/
theorem IsRound.candidate_stays (h : IsRound shell cause settings root before after)
    (hfile : file ∈ (Scan.ofTree before shell (.error cause) settings root).files)
    (hcandidate : RankedFile.isCandidate file = true) :
    ∃ other ∈ (Scan.ofTree after shell (.error cause) settings root).files,
      other.path = file.path ∧ RankedFile.isCandidate other = true ∧
        (RankedFile.ofFile [] file).score ≤ (RankedFile.ofFile [] other).score := by
  obtain ⟨names, haccepts, hwalked, hknows⟩ :=
    (mem_files h.plain.isOrdinary shell cause settings file).mp hfile
  obtain ⟨old, since, hfind, husable, -⟩ := id hknows
  have hmem : ∀ {bytes modified}, after.find? (root ++ names) = some (.file bytes modified) →
      SourceFile.ofBytes (slashed names) (Location.ofRoute (root ++ names)).text bytes ∈
        (Scan.ofTree after shell (.error cause) settings root).files := fun hafter =>
    (mem_files h.effect.plain.isOrdinary shell cause settings _).mpr
      ⟨names, haccepts, ⟨hwalked.entered, hwalked.listed, _, _, hafter⟩,
        knows_of_find? hafter husable⟩
  rcases h.kept_or_marked (isTaggable_of_candidate hknows hcandidate) with
    hkept | ⟨tag, found, bytes, hproposes, hmarked, hafter⟩
  · have hsame := knows_unique (knows_of_find? hfind husable) hknows
    exact ⟨file, hsame ▸ hmem (hkept.trans hfind), rfl, hcandidate, le_rfl⟩
  · obtain rfl := knows_unique hproposes.knows hknows
    have hgrows := grows_of_marked h.plain hproposes hmarked
    exact ⟨_, hmem hafter, hgrows.path, hgrows.isCandidate hcandidate, hgrows.score_le⟩

/-- A candidate after the round was one before, with the same score or among the best. -/
theorem IsRound.candidate_was (h : IsRound shell cause settings root before after)
    {other : SourceFile}
    (hother : other ∈ (Scan.ofTree after shell (.error cause) settings root).files)
    (hcandidate : RankedFile.isCandidate other = true) :
    ∃ file ∈ (Scan.ofTree before shell (.error cause) settings root).files,
      file.path = other.path ∧ RankedFile.isCandidate file = true ∧
        ((RankedFile.ofFile [] file).score = (RankedFile.ofFile [] other).score ∨
          RankedFile.ofFile [] file ∈ RankedFile.best [] settings.maxTags
            (Scan.ofTree before shell (.error cause) settings root).files) := by
  obtain ⟨names, haccepts, hwalked, hknows⟩ :=
    (mem_files h.effect.plain.isOrdinary shell cause settings other).mp hother
  rcases h.kept_or_marked (isTaggable_of_candidate hknows hcandidate) with
    hkept | ⟨tag, found, bytes, hproposes, -, -⟩
  · obtain ⟨bytes, modified, hfind, husable, hsame⟩ := hknows
    rw [hkept] at hfind
    refine ⟨other, (mem_files h.plain.isOrdinary shell cause settings other).mpr ⟨names, haccepts,
      ⟨hwalked.entered, hwalked.listed, _, _, hfind⟩, bytes, modified, hfind, husable, hsame⟩,
      rfl, hcandidate, .inl rfl⟩
  · exact ⟨found, hproposes.mem, by rw [hproposes.knows.path, hknows.path], hproposes.candidate,
      .inr hproposes.best⟩

/-- Tags that are proposed after a round are for files that one was proposed for before. -/
theorem IsRound.proposes_before (h : IsRound shell cause settings root before after)
    (hproposes : Proposes after shell root (Scan.ofTree after shell (.error cause) settings root)
      settings.maxTags tag names file) :
    ∃ first other, Proposes before shell root
      (Scan.ofTree before shell (.error cause) settings root) settings.maxTags first names other := by
  have hascends := pairwise_files before shell (.error cause) settings root
  obtain ⟨other, hother, hpath, hbest⟩ := RankedFile.mem_best_of_raised hascends
    (pairwise_files after shell (.error cause) settings root) (fun _ => h.candidate_stays)
    (fun _ => h.candidate_was) hproposes.best
  obtain ⟨found, -, hcandidate, hsame, -⟩ := (RankedFile.mem_best hascends _ _ _).mp hbest
  obtain rfl : found = other := congrArg RankedFile.file hsame
  obtain ⟨others, -, -, hknows⟩ := (mem_files h.plain.isOrdinary shell cause settings found).mp hother
  rw [hknows.path, hproposes.knows.path] at hpath
  obtain rfl := Location.slashed_inj (hknows.isName h.plain.sound)
    (hproposes.knows.isName h.effect.plain.sound) hpath
  exact ⟨_, found, hknows, hcandidate, hother, hbest, rfl⟩

/-- After a round no proposed tag marks its file. -/
theorem IsRound.settled (h : IsRound shell cause settings root before after)
    (htag : tag ∈ (Scan.ofTree after shell (.error cause) settings root).tags) :
    marked? after tag = none := by
  obtain ⟨names, file, hproposes⟩ := mem_tags h.effect.plain shell cause settings htag
  obtain ⟨first, other, hfirst⟩ := h.proposes_before hproposes
  rw [← Option.not_isSome_iff_eq_none]
  cases hmarked : marked? before first with
  | some bytes =>
      have hafter := h.effect.marked first hfirst.mem_tags bytes hmarked
      rw [hfirst.target_eq h.plain] at hafter
      have htagged := tagged_of_marked h.plain hfirst hmarked
      rw [marked?_isSome h.effect.plain hproposes hafter, isMarkable]
      simp [Option.isNone_eq_false_iff.mpr htagged]
  | none =>
      rcases h.kept_or_marked hfirst.isTaggable with hkept | ⟨marking, found, bytes, hfound, hwrong, -⟩
      · obtain ⟨old, since, hfind, -, -⟩ := hfirst.knows
        rw [marked?_isSome h.effect.plain hproposes (hkept.trans hfind),
          ← marked?_isSome h.plain hfirst hfind, hmarked]
        exact Bool.false_ne_true
      · obtain rfl := knows_unique hfound.knows hfirst.knows
        rw [hfound.tag, ← hfirst.tag, hmarked] at hwrong
        cases hwrong

/-! ## The round after a round -/

theorem IsRound.docsEntry_after (h : IsRound shell cause settings root before after) :
    docsEntry after root .index = after.find? (docsRoute root) := by
  refine if_neg fun hmade => ?_
  have hnone := hmade.2.2
  rw [h.effect.docs, docsEntry] at hnone
  split at hnone
  · cases hnone
  · next hblocked => exact hblocked ⟨rfl, hmade.2.1, hnone⟩

/-- The round after a round changes nothing but the documents. -/
theorem IsRound.frame {last : Tree} (h : IsRound shell cause settings root before after)
    (hnext : IsRound shell cause settings root after last) {place : Route}
    (hplace : ∀ page, place ≠ pageRoute root page) : last.find? place = after.find? place := by
  by_cases hdocs : place = docsRoute root
  · rw [hdocs, hnext.effect.docs, h.docsEntry_after]
  · refine hnext.effect.kept place hplace hdocs fun tag htag hsome => ?_
    rw [h.settled htag] at hsome
    cases hsome

/-- The round does not decide whether a document can be written. -/
theorem IsRound.isOpen_iff (h : IsRound shell cause settings root before after) (page : Page) :
    IsOpen after root page ↔ IsOpen before root page := by
  have hdocs := h.effect.docs
  by_cases hopen : IsOpen before root page
  · refine iff_of_true ⟨hopen.1, ?_, fun hindex => ?_⟩ hopen
    · rw [h.effect.opened page hopen]
      nofun
    · rw [hdocs, docsEntry]
      split
      · exact .inr rfl
      · exact hopen.2.2 hindex
  · refine iff_of_false (fun hafter => hopen ⟨hafter.1, ?_, fun hindex => ?_⟩) hopen
    · rw [← h.effect.closed page hopen]
      exact hafter.2.1
    · have hentry := hafter.2.2 hindex
      rw [hdocs, docsEntry] at hentry
      split at hentry
      · next hmade => exact .inl hmade.2.2
      · exact hentry

end SourceAtlas.Project
