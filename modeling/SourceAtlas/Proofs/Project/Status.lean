import SourceAtlas.Proofs.Outcome
import SourceAtlas.Proofs.Project.Convergence
import SourceAtlas.Proofs.Project.Counting

/-!
# The status after a round

The files that count after a round are those that counted before and those that the round marks. The
status can be told after a round if it can be told before: a round makes no path too long, and the
documents that it writes are written during the run.
-/

namespace SourceAtlas.Project

open Outcome TagCount

variable {shell : Shell} {cause : Git.Failure} {settings : Settings} {root names : Route}
  {before after tree : Tree} {tag : InlineTag} {file : SourceFile} {page : Page}
  {git : Git.Replies} {path : String}

/-! ## The files that count -/

theorem isTaggable_iff : TagCount.isTaggable (slashed names) = true ↔ IsTaggable names := by
  unfold TagCount.isTaggable IsTaggable
  cases Language.ofPath? (slashed names) with
  | none => decide
  | some language => rfl

/-- A file that a scan marks counts afterwards. -/
theorem isCounted_of_marked (hplain : before.IsPlain root)
    (hproposes : Scan.Proposes before shell root
      (Scan.ofTree before shell (.error cause) settings root) settings.maxTags tag names file)
    {bytes : List UInt8} (hmarked : marked? before tag = some bytes)
    (hafter : after.find? (root ++ names) = some (.file bytes .recently)) :
    IsCounted after root names where
  accepted := by
    obtain ⟨others, haccepts, -, hknows⟩ :=
      (Scan.mem_files hplain.isOrdinary shell cause settings file).mp hproposes.mem
    rw [← hknows.path, hproposes.knows.path] at haccepts
    exact Listing.accepts_nil_of_accepts haccepts
  taggable := isTaggable_iff.mpr hproposes.isTaggable
  usable := by
    obtain ⟨-, -, -, husable, -⟩ := hproposes.knows
    exact husable
  tagged := ⟨bytes, .recently, hafter, tagged_of_marked hplain hproposes hmarked⟩

/-- A file that a scan marks does not count before. -/
theorem not_isCounted_of_marked {scan : Scan} {limit : Int} (hplain : before.IsPlain root)
    (hproposes : Scan.Proposes before shell root scan limit tag names file)
    (hmarked : (marked? before tag).isSome) : ¬ IsCounted before root names := by
  intro hcounted
  obtain ⟨bytes, modified, hfind, htag⟩ := hcounted.tagged
  rw [marked?_isSome hplain hproposes hfind] at hmarked
  unfold HoldsTag at htag
  simp [isMarkable, Option.isNone_eq_false_iff.mpr htag] at hmarked

theorem path_of_proposes {scan : Scan} {limit : Int}
    (h : Scan.Proposes tree shell root scan limit tag names file) : tag.path = slashed names := by
  rw [h.tag]
  exact h.knows.path

section Round

variable (h : IsRound shell cause settings root before after)

include h

/-- What counts after a round counted before, or it was marked. -/
theorem IsRound.mem_counted_iff :
    path ∈ counted after shell root ↔ path ∈ counted before shell root ∨
      path ∈ (marking before (Scan.ofTree before shell (.error cause) settings root).tags).map
        (·.path) := by
  rw [mem_counted h.effect.plain.isOrdinary, mem_counted h.plain.isOrdinary, List.mem_map]
  constructor
  · rintro ⟨names, hcounted, rfl⟩
    rcases h.kept_or_marked (isTaggable_iff.mp hcounted.taggable) with
      hkept | ⟨tag, file, bytes, hproposes, hmarked, -⟩
    · exact .inl ⟨names, hcounted.congr hkept.symm, rfl⟩
    · have hsome : (marked? before tag).isSome := by rw [hmarked]; rfl
      exact .inr ⟨tag, List.mem_filter.mpr ⟨hproposes.mem_tags, hsome⟩, path_of_proposes hproposes⟩
  · rintro (⟨names, hcounted, rfl⟩ | ⟨tag, hmarking, rfl⟩)
    · rcases h.kept_or_marked (isTaggable_iff.mp hcounted.taggable) with
        hkept | ⟨tag, file, bytes, hproposes, hmarked, hnew⟩
      · exact ⟨names, hcounted.congr hkept, rfl⟩
      · exact ⟨names, isCounted_of_marked h.plain hproposes hmarked hnew, rfl⟩
    · obtain ⟨htag, hsome⟩ := List.mem_filter.mp hmarking
      obtain ⟨bytes, hmarked⟩ := Option.isSome_iff_exists.mp hsome
      obtain ⟨names, file, hproposes⟩ := Scan.mem_tags h.plain shell cause settings htag
      have hnew := h.effect.marked tag htag bytes hmarked
      rw [hproposes.target_eq h.plain] at hnew
      exact ⟨names, isCounted_of_marked h.plain hproposes hmarked hnew,
        path_of_proposes hproposes⟩

/-- A round adds the files that it marks to those that count. -/
theorem IsRound.counted_perm :
    (counted after shell root).Perm (counted before shell root ++
      (marking before (Scan.ofTree before shell (.error cause) settings root).tags).map
        (·.path)) := by
  have hmarking : ((marking before
      (Scan.ofTree before shell (.error cause) settings root).tags).map (·.path)).Nodup :=
    (Scan.nodup_tag_paths before shell (.error cause) settings root).sublist
      (List.filter_sublist.map _)
  refine (List.perm_ext_iff_of_nodup (nodup_counted after shell root) ?_).mpr fun path => ?_
  · -- What is marked did not count before, so no path is in both parts.
    refine List.nodup_append.mpr ⟨nodup_counted before shell root, hmarking, ?_⟩
    rintro path hcounted other hmarked rfl
    obtain ⟨tag, htag, rfl⟩ := List.mem_map.mp hmarked
    obtain ⟨htag, hsome⟩ := List.mem_filter.mp htag
    obtain ⟨names, file, hproposes⟩ := Scan.mem_tags h.plain shell cause settings htag
    obtain ⟨others, hothers, hpath⟩ := (mem_counted h.plain.isOrdinary shell).mp hcounted
    obtain ⟨bytes, modified, hfind⟩ := hothers.holdsFile
    rw [path_of_proposes hproposes] at hpath
    obtain rfl := Location.slashed_inj (hproposes.knows.isName h.plain.sound)
      (fun name hname => (h.plain.isProjectName hfind hname).isName) hpath
    exact not_isCounted_of_marked h.plain hproposes hsome hothers
  · rw [h.mem_counted_iff, List.mem_append]

end Round

/-! ## The parts of a status -/

theorem statusIn_eq_ok_iff {status : Status} :
    statusIn tree shell git root = .ok status ↔
      pagePath? tree shell root .overview = .ok status.overview ∧
      pagePath? tree shell root .index = .ok status.index ∧
      (pageModified? tree shell root .overview).mapM Modified.moment = .ok status.updated ∧
      TagCount.ofTree tree shell git root = .ok status.tags := by
  unfold statusIn onDisk
  simp only [bind_eq_ok_iff, mapError_eq_ok_iff]
  constructor
  · rintro ⟨overview, hoverview, index, hindex, updated, hupdated, tags, htags, hstatus⟩
    cases hstatus
    exact ⟨hoverview, hindex, hupdated, htags⟩
  · rintro ⟨hoverview, hindex, hupdated, htags⟩
    exact ⟨_, hoverview, _, hindex, _, hupdated, _, htags, rfl⟩

theorem isPlainName_pageNames (page : Page) : ∀ name ∈ pageNames page, Tree.IsPlainName name := by
  have hoverview := isProjectName_overview.isName.plain
  have hdocs := isProjectName_docs.isName.plain
  have hindex := isProjectName_index.isName.plain
  cases page with
  | overview => simpa [pageNames] using hoverview
  | index => simpa [pageNames] using ⟨hdocs, hindex⟩

/-- Where the system does not take the path of a document, it does not matter what is on the disk. -/
theorem stat_page_of_not_usable
    (h : ¬ (Location.ofRoute (root ++ pageNames page)).IsUsable) (shell : Shell)
    (before after : Tree) :
    after.stat shell (pageLocation root page) = before.stat shell (pageLocation root page) := by
  obtain ⟨failure, -, hfail⟩ := Tree.locate_of_not_usable shell h
  rw [pageLocation_eq, pageRoute_eq]
  unfold Tree.stat
  rw [hfail, hfail]

/-- In a plain project the path of a document can be told, unless it is too long in any project. -/
theorem pagePath?_of_isPlain (hplain : after.IsPlain root) {found : Option String}
    (h : pagePath? before shell root page = .ok found) :
    ∃ other, pagePath? after shell root page = .ok other := by
  by_cases husable : (Location.ofRoute (root ++ pageNames page)).IsUsable
  · have hprobe := hplain.probe_eq shell (isPlainName_pageNames page) husable
    unfold pagePath? Tree.isFile
    dsimp only
    rw [pageLocation_eq, pageRoute_eq, hprobe]
    exact ⟨_, rfl⟩
  · refine ⟨found, ?_⟩
    unfold pagePath? Tree.isFile Tree.probe at h ⊢
    dsimp only at h ⊢
    rw [stat_page_of_not_usable husable shell before after]
    exact h

theorem pageModified?_eq (hplain : tree.IsPlain root) (shell : Shell)
    (husable : (Location.ofRoute (root ++ pageNames page)).IsUsable) :
    pageModified? tree shell root page =
      match tree.find? (pageRoute root page) with
      | some (.file _ modified) => some modified
      | _ => none := by
  unfold pageModified?
  rw [pageLocation_eq, pageRoute_eq]
  rcases hplain.stat_cases shell (isPlainName_pageNames page) husable with
    ⟨entry, hfind, hstat⟩ | ⟨hnone, errno, path, -, hstat⟩
  · rw [hstat, hfind]
    cases entry <;> rfl
  · rw [hstat, hnone]

/-- A document that a round writes is written during the run, and any other one stays. -/
theorem IsRound.moment_after (h : IsRound shell cause settings root before after)
    {moment : Option Moment}
    (hmoment : (pageModified? before shell root page).mapM Modified.moment = .ok moment) :
    ∃ later, (pageModified? after shell root page).mapM Modified.moment = .ok later := by
  by_cases husable : (Location.ofRoute (root ++ pageNames page)).IsUsable
  · rw [pageModified?_eq h.effect.plain shell husable]
    rw [pageModified?_eq h.plain shell husable] at hmoment
    by_cases hopen : IsOpen before root page
    · rw [h.effect.opened page hopen]
      exact ⟨some .recently, rfl⟩
    · rw [h.effect.closed page hopen]
      exact ⟨moment, hmoment⟩
  · refine ⟨moment, ?_⟩
    unfold pageModified? at hmoment ⊢
    rw [stat_page_of_not_usable husable shell before after]
    exact hmoment

/-! ## The status after a round -/

/-- A round adds the tags that it writes to those that the status counts. -/
theorem IsRound.statusIn_after (h : IsRound shell cause settings root before after)
    (hgit : IsUnavailable git) {earlier : Status}
    (hearlier : statusIn before shell git root = .ok earlier) :
    ∃ later, statusIn after shell git root = .ok later ∧
      later.tags.count = earlier.tags.count +
        (marking before (Scan.ofTree before shell (.error cause) settings root).tags).length := by
  obtain ⟨hoverview, hindex, hupdated, htags⟩ := statusIn_eq_ok_iff.mp hearlier
  obtain ⟨overview, hoverview⟩ := pagePath?_of_isPlain h.effect.plain hoverview
  obtain ⟨index, hindex⟩ := pagePath?_of_isPlain h.effect.plain hindex
  obtain ⟨updated, hupdated⟩ := h.moment_after hupdated
  obtain ⟨tags, hbefore, hcount⟩ := ofTree_of_unavailable hgit before shell root
  obtain ⟨others, hafter, hothers⟩ := ofTree_of_unavailable hgit after shell root
  rw [hbefore] at htags
  cases htags
  refine ⟨⟨overview, index, updated, others⟩,
    statusIn_eq_ok_iff.mpr ⟨hoverview, hindex, hupdated, hafter⟩, ?_⟩
  rw [hothers, hcount, h.counted_perm.length_eq, List.length_append, List.length_map]

/-- The status after generating and writing counts the tags that it counted before and those that
were written. -/
theorem status_after_round (hroot : Project.root tree shell path = .ok root)
    (hplain : tree.IsPlain root) (hlinkless : tree.IsLinkless) (cause : Git.Failure)
    (settings : Settings) (hgit : IsUnavailable git) :
    ∃ generation report after,
      (round shell cause settings path).run tree = (.ok (generation, report), after) ∧
      report.stopped = none ∧
      ∀ earlier, status tree shell git path = .ok earlier →
        ∃ later, status after shell git path = .ok later ∧
          later.tags.count = earlier.tags.count + report.tagsWritten := by
  obtain ⟨report, after, hrun, htags, hstopped, hround, hafter⟩ :=
    run_round ⟨hroot, hplain, hlinkless⟩ cause settings
  refine ⟨_, report, after, hrun, hstopped, fun earlier hearlier => ?_⟩
  unfold status at hearlier ⊢
  rw [hroot] at hearlier
  rw [hafter.found, htags]
  exact hround.statusIn_after hgit hearlier

theorem status_after_round_mixed :
    Project.root mixedTree ⟨[], []⟩ "/p" = .ok ["p"] ∧ mixedTree.IsPlain ["p"] ∧
      mixedTree.IsLinkless ∧
      ∃ generation report after earlier later,
        (round ⟨[], []⟩ .missing .standard "/p").run mixedTree =
          (.ok (generation, report), after) ∧
        status mixedTree ⟨[], []⟩ ⟨.error .missing, .error .missing⟩ "/p" = .ok earlier ∧
        status after ⟨[], []⟩ ⟨.error .missing, .error .missing⟩ "/p" = .ok later ∧
        later.tags.count = earlier.tags.count + report.tagsWritten := by
  have hroot : Project.root mixedTree ⟨[], []⟩ "/p" = .ok ["p"] := by decide +kernel
  have hplain : mixedTree.IsPlain ["p"] :=
    Tree.isPlain_of_entries (by decide) (by decide) (by decide)
  have hlinkless : mixedTree.IsLinkless := Tree.isLinkless_of_entries (by decide) (by decide)
  have hgit : IsUnavailable ⟨.error .missing, .error .missing⟩ :=
    ⟨trivial, .missing, rfl, by decide, by decide⟩
  obtain ⟨tags, htags, -⟩ := ofTree_of_unavailable hgit mixedTree ⟨[], []⟩ ["p"]
  have hnone : ∀ page, pagePath? mixedTree ⟨[], []⟩ ["p"] page = .ok none := by
    intro page
    cases page <;> decide +kernel
  have hearlier : status mixedTree ⟨[], []⟩ ⟨.error .missing, .error .missing⟩ "/p" =
      .ok ⟨none, none, none, tags⟩ := by
    unfold status
    rw [hroot]
    change statusIn mixedTree ⟨[], []⟩ ⟨.error .missing, .error .missing⟩ ["p"] = _
    exact statusIn_eq_ok_iff.mpr ⟨hnone .overview, hnone .index, rfl, htags⟩
  obtain ⟨generation, report, after, hrun, -, hstatus⟩ :=
    status_after_round hroot hplain hlinkless .missing .standard hgit
  obtain ⟨later, hlater, hcount⟩ := hstatus _ hearlier
  exact ⟨hroot, hplain, hlinkless, generation, report, after, _, later, hrun, hearlier, hlater,
    hcount⟩

end SourceAtlas.Project
