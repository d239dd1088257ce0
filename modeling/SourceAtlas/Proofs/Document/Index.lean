import SourceAtlas.Listing.Filter
import SourceAtlas.Proofs.Document.Order
import SourceAtlas.Proofs.Document.Tables
import SourceAtlas.Proofs.Domain.Feeds
import SourceAtlas.Proofs.Text.Breaks
import SourceAtlas.Settings

/-!
# The index is read back

The reader of the index finds a table for every domain, with one row for each of its files, in the
order of paths. It does so exactly if the rows are plain, because paths and layers are written into
their rows as they stand: no vertical bar is marked, and no line feed.
-/

namespace SourceAtlas.IndexReader

open Text

variable {file : SourceFile} {files : List SourceFile} {project : String} {summary : Summary}
  {lines : List String} {table : Table} {domain : Domain}

/-! ## Lines without line feeds -/

/-- There is no line feed in the text. -/
def IsFeedless (text : String) : Prop := '\n' ∉ text.toList

instance (text : String) : Decidable (IsFeedless text) :=
  inferInstanceAs (Decidable ('\n' ∉ text.toList))

theorem isFeedless_append {first second : String} :
    IsFeedless (first ++ second) ↔ IsFeedless first ∧ IsFeedless second := by
  unfold IsFeedless
  rw [String.toList_append, List.mem_append, not_or]

theorem isFeedless_code {text : String} (h : IsFeedless text) : IsFeedless (Page.code text) := by
  simp +decide only [Page.code, isFeedless_append, h]

theorem isFeedless_row {cells : List String} (h : ∀ cell ∈ cells, IsFeedless cell) :
    IsFeedless (Page.row cells) := by
  have hcells : IsFeedless (" | ".intercalate cells) := not_mem_intercalate (by decide) h
  simp +decide only [Page.row, isFeedless_append, hcells]

theorem isFeedless_number (n : Int) : IsFeedless (toString n) := fun hmem =>
  absurd (Number.isNumeric_of_mem_toString _ hmem).bounds (by decide)

theorem isFeedless_thousands (n : Int) : IsFeedless (thousands n) := by
  have hdigits : '\n' ∉ groupedDigits n.natAbs := by
    intro hmem
    rcases mem_groupReversed (List.mem_reverse.mp hmem) with hdigit | hcomma
    · exact absurd (Number.isDigit_toDigits _ (List.mem_reverse.mp hdigit)) (by decide)
    · cases hcomma
  unfold IsFeedless thousands
  rw [String.toList_ofList]
  split
  · simpa using hdigits
  · exact hdigits

theorem isFeedless_figures (summary : Summary) : IsFeedless (Page.figures summary "files") := by
  have hfiles := isFeedless_number summary.totalFiles
  have hlines := isFeedless_thousands summary.totalLines
  have hdomains : IsFeedless (toString summary.domains.length) := not_mem_toString rfl _
  simp +decide only [Page.figures, isFeedless_append, hfiles, hlines, hdomains]

theorem isFeedless_fileRow (h : (rowOf file).IsPlain) : IsFeedless (Page.fileRow file) := by
  refine isFeedless_row fun cell hcell => ?_
  simp only [List.mem_cons, List.not_mem_nil, or_false] at hcell
  rcases hcell with rfl | rfl | rfl
  · exact isFeedless_code h.path.2
  · exact h.layer.2
  · exact not_mem_toString rfl file.lineCount

theorem isFeedless_entrypointLine (h : (rowOf file).IsPlain) :
    IsFeedless (Page.entrypointLine file) := by
  have hpath : IsFeedless (Page.code file.path) := isFeedless_code h.path.2
  have hlayer : IsFeedless file.layer.name := h.layer.2
  have hcount : IsFeedless (toString file.lineCount) := not_mem_toString rfl _
  simp +decide only [Page.entrypointLine, isFeedless_append, hpath, hlayer, hcount]

theorem isFeedless_entrypointLines (h : ∀ file ∈ files, (rowOf file).IsPlain) :
    ∀ line ∈ Page.entrypointLines files, IsFeedless line := by
  have hfound : ∀ file ∈ Summary.entrypoints files, (rowOf file).IsPlain := fun file hfile =>
    h file (List.mem_filter.mp hfile).1
  unfold Page.entrypointLines
  cases hentry : Summary.entrypoints files with
  | nil => exact nofun
  | cons first found =>
      rw [hentry] at hfound
      intro line hline
      simp only [List.mem_append, List.mem_cons, List.not_mem_nil, or_false, List.mem_map] at hline
      rcases hline with ((rfl | rfl) | ⟨file, hfile, rfl⟩) | rfl
      · decide
      · decide
      · exact isFeedless_entrypointLine (hfound file (List.mem_cons.mpr hfile))
      · decide

theorem isFeedless_sectionLines (hname : IsFeedless domain.name)
    (hchannels : ∀ channels, domain.channels = some channels → IsFeedless channels)
    (hfiles : ∀ file ∈ domain.files, (rowOf file).IsPlain) :
    ∀ line ∈ Page.sectionLines domain, IsFeedless line := by
  intro line hline
  unfold Page.sectionLines at hline
  simp only [List.mem_append, List.mem_map] at hline
  rcases hline with (((hheading | hserved) | hlabels) | ⟨file, hfile, rfl⟩) | hlast
  · revert line
    simp only [List.forall_mem_cons]
    exact ⟨isFeedless_append.mpr ⟨by decide, hname⟩, by decide, nofun⟩
  · split at hserved
    · next channels hsome =>
        have hcode := isFeedless_code (hchannels channels (Option.filter_eq_some_iff.mp hsome).1)
        revert line
        simp only [List.forall_mem_cons]
        exact ⟨isFeedless_append.mpr ⟨by decide, hcode⟩, by decide, nofun⟩
    · cases hserved
  · revert line
    decide
  · exact isFeedless_fileRow (hfiles file (List.mem_mergeSort.mp hfile))
  · revert line
    decide

/-! ## The lines of the index -/

/-- The lines of the index below its title. -/
def bodyLines (summary : Summary) : List String :=
  ["", Page.figures summary "files", ""] ++ Page.entrypointLines summary.files
    ++ summary.domains.flatMap Page.sectionLines

theorem toList_unlines_cons (line : String) (lines : List String) :
    (Page.unlines (line :: lines)).toList = line.toList ++ '\n' :: (Page.unlines lines).toList := by
  unfold Page.unlines
  rw [List.map_cons, String.join_cons, String.toList_append, String.toList_append, List.append_assoc]
  rfl

/-- Lines without line feeds are told apart again. -/
theorem split_unlines (h : ∀ line ∈ lines, IsFeedless line) :
    split '\n' (Page.unlines lines).toList = (lines ++ [""]).map String.toList := by
  induction lines with
  | nil => rfl
  | cons line lines ih =>
      rw [List.forall_mem_cons] at h
      rw [toList_unlines_cons, split_append_sep h.1, ih h.2]
      rfl

theorem read_index (h : ∀ line ∈ bodyLines summary, IsFeedless line) :
    read project (Page.index.text project summary) =
      readLines "" none (bodyLines summary ++ [""]) := by
  have hbody : dropStart? (title project).toList (Page.index.text project summary).toList =
      some (Page.unlines (bodyLines summary)).toList := by
    refine dropStart?_eq_some_iff.mpr ?_
    change (Page.unlines (("# " ++ project ++ " - Repo Index") :: bodyLines summary)).toList = _
    rw [toList_unlines_cons, title]
    simp
  unfold read
  rw [hbody, Option.bind_some, split_unlines h, List.map_map]
  have hback : String.ofList ∘ String.toList = id := funext fun _ => String.ofList_toList
  rw [hback, List.map_id]

/-- The index of plain files is read as one table for each domain. -/
theorem read_index_of_isPlain (hlines : ∀ line ∈ bodyLines summary, IsFeedless line)
    (hfiles : ∀ domain ∈ summary.domains, ∀ file ∈ domain.files, (rowOf file).IsPlain) :
    read project (Page.index.text project summary) = some (summary.domains.map tableOf) := by
  obtain ⟨name, hentries⟩ := exists_readLines_entrypoints summary.files ""
    (summary.domains.flatMap Page.sectionLines ++ [""])
  rw [read_index hlines, ← readLines_sections hfiles name, ← hentries]
  unfold bodyLines
  rw [List.append_assoc, List.append_assoc, List.cons_append, List.cons_append, List.cons_append,
    List.nil_append, readLines_passed isPassed_empty, readLines_passed (isPassed_figures _ _),
    readLines_passed isPassed_empty]

/-! ## What the index tells -/

/-- The table shows the domain: one row for each of its files, in the order of paths. -/
structure Shows (table : Table) (domain : Domain) : Prop where
  heading : table.heading = domain.name
  rows : table.rows.Perm (domain.files.map rowOf)
  ascending : table.rows.Pairwise fun first second => codePointLe first.path second.path = true

theorem shows_tableOf (domain : Domain) : Shows (tableOf domain) domain where
  heading := rfl
  rows := (List.mergeSort_perm _ _).map rowOf
  ascending := List.pairwise_map.mpr (Page.pairwise_sortedFiles domain.files)

theorem forall₂_shows_tableOf (domains : List Domain) :
    List.Forall₂ Shows (domains.map tableOf) domains := by
  induction domains with
  | nil => exact .nil
  | cons domain domains ih => exact .cons (shows_tableOf domain) ih

/-- A file is shown in an index that is read only if its row is plain. -/
theorem isPlain_of_shows {text : String} {tables : List Table} {domains : List Domain}
    (hread : read project text = some tables) (hshows : List.Forall₂ Shows tables domains)
    (hdomain : domain ∈ domains) (hfile : file ∈ domain.files) : (rowOf file).IsPlain := by
  obtain ⟨table, htable, hrows⟩ : ∃ table ∈ tables, Shows table domain := by
    obtain ⟨place, hplace, rfl⟩ := List.getElem_of_mem hdomain
    have hlength := hshows.length_eq
    exact ⟨tables[place], List.getElem_mem _, hshows.get (hlength ▸ hplace) hplace⟩
  exact isPlain_of_read hread htable (hrows.rows.mem_iff.mpr (List.mem_map_of_mem hfile))

/-- The domains of the summary are the ones that are inferred from its files. -/
def inferred (threshold : Number.Binary64) (sensitivity : Sensitivity) (summary : Summary) :
    Summary :=
  { summary with domains := Domain.infer threshold sensitivity summary.files }

section Inferred

variable {threshold : Number.Binary64} {sensitivity : Sensitivity}

theorem mem_files_of_mem_infer (hdomain : domain ∈ Domain.infer threshold sensitivity files)
    (hfile : file ∈ domain.files) : file ∈ files :=
  ((Domain.isPartition_of_files (Domain.map_files_infer threshold sensitivity files)).inOrder
    domain hdomain).subset hfile

theorem isFeedless_bodyLines (h : ∀ file ∈ summary.files, (rowOf file).IsPlain) :
    ∀ line ∈ bodyLines (inferred threshold sensitivity summary), IsFeedless line := by
  intro line hline
  rcases List.mem_append.mp hline with hfront | hsections
  · rcases List.mem_append.mp hfront with hfigures | hentries
    · clear hline hfront
      revert line
      simp only [List.forall_mem_cons]
      exact ⟨by decide, isFeedless_figures _, by decide, nofun⟩
    · exact isFeedless_entrypointLines h line hentries
  · obtain ⟨domain, hdomain, hsection⟩ := List.mem_flatMap.mp hsections
    refine isFeedless_sectionLines (fun hfeed => ?_) (fun channels hsome => ?_) ?_ line hsection
    · obtain ⟨file, hfile, hpath⟩ := Domain.exists_of_feed_mem_name hdomain hfeed
      exact (h file hfile).path.2 hpath
    · exact Domain.feed_not_mem_channels hdomain hsome
    · exact fun file hfile => h file (mem_files_of_mem_infer hdomain hfile)

/-- The index of inferred domains is read back exactly if the rows of all files are plain. Then the
reader finds the domains in their order, each with one row for each of its files, by path. With the
layer that is read off a path, a row is plain exactly if the path has no vertical bar and no line
feed. -/
theorem index_readsBack_iff (threshold : Number.Binary64) (sensitivity : Sensitivity)
    (project : String) (summary : Summary) :
    ((∃ tables,
      read project (Page.index.text project (inferred threshold sensitivity summary)) =
          some tables ∧
        List.Forall₂ Shows tables (Domain.infer threshold sensitivity summary.files)) ↔
      ∀ file ∈ summary.files, (rowOf file).IsPlain) ∧
    ∀ file ∈ summary.files, file.layer = .ofPath file.path →
      ((rowOf file).IsPlain ↔ '|' ∉ file.path.toList ∧ '\n' ∉ file.path.toList) := by
  refine ⟨⟨?_, fun h => ?_⟩, fun file _ hlayer => isPlain_rowOf_iff hlayer⟩
  · rintro ⟨tables, hread, hshows⟩ file hfile
    obtain ⟨domain, hdomain, hin⟩ :=
      Domain.exists_domain (Domain.map_files_infer threshold sensitivity summary.files) hfile
    exact isPlain_of_shows hread hshows hdomain hin
  · refine ⟨_, read_index_of_isPlain (isFeedless_bodyLines h) fun domain hdomain file hfile => ?_,
      forall₂_shows_tableOf _⟩
    exact h file (mem_files_of_mem_infer hdomain hfile)

end Inferred

/-- A file with a vertical bar in its name. -/
def barSummary : Summary where
  files := [⟨"a|b.ts", "/p/a|b.ts", .typescript, 10, 0, [], [], .other⟩]
  totalFiles := 1
  totalLines := 10
  languages := [("typescript", 1)]
  domains := []

/-- The path is listed, but its row has four cells, so that no reading of the index shows it. -/
theorem index_isNotReadBack_bar :
    ∃ file ∈ barSummary.files, Listing.accepts [] file.path = true ∧
      split '|' (Page.fileRow file).toList =
        ["", " `a", "b.ts` ", " other ", " 10 ", ""].map String.toList ∧
      ¬ ∃ tables,
        read "p" (Page.index.text "p" (inferred Settings.defaultThreshold .medium barSummary)) =
            some tables ∧
          List.Forall₂ Shows tables
            (Domain.infer Settings.defaultThreshold .medium barSummary.files) := by
  refine ⟨_, List.mem_cons_self, by decide +kernel, by decide +kernel, ?_⟩
  rintro ⟨tables, hread, hshows⟩
  obtain ⟨domain, hdomain, hin⟩ := Domain.exists_domain
    (Domain.map_files_infer Settings.defaultThreshold .medium barSummary.files) List.mem_cons_self
  exact (isPlain_of_shows hread hshows hdomain hin).path.1 (by decide)

end SourceAtlas.IndexReader
