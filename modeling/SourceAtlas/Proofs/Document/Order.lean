import Mathlib.Data.List.Nodup
import SourceAtlas.Document.Page
import SourceAtlas.Proofs.Sorting
import SourceAtlas.Proofs.Text.Order

/-!
# Documents and the order of what they show

A scan finds languages and files in some order. The documents sort them by keys that tell all of
them apart, or ask only whether there is one of a kind, so this order does not show.
-/

namespace SourceAtlas

open Text

namespace Summary

/-! ## Languages by frequency -/

theorem frequencyLe_iff {first second : String × Int} :
    frequencyLe first second = true ↔
      second.2 < first.2 ∨ (first.2 = second.2 ∧ first.1 ≤ second.1) := by
  simp [frequencyLe, codePointLe_iff]

theorem frequencyLe_trans (a b c : String × Int) (hab : frequencyLe a b = true)
    (hbc : frequencyLe b c = true) : frequencyLe a c = true := by
  rw [frequencyLe_iff] at *
  rcases hab with hless | ⟨hsame, hname⟩
  · left
    omega
  · rcases hbc with hnext | ⟨hnext, hafter⟩
    · left
      omega
    · exact .inr ⟨hsame.trans hnext, le_trans hname hafter⟩

theorem frequencyLe_total (a b : String × Int) : (frequencyLe a b || frequencyLe b a) = true := by
  rw [Bool.or_eq_true, frequencyLe_iff, frequencyLe_iff]
  rcases lt_trichotomy a.2 b.2 with hless | hsame | hmore
  · exact .inr (.inl hless)
  · rcases le_total a.1 b.1 with hname | hname
    · exact .inl (.inr ⟨hsame, hname⟩)
    · exact .inr (.inr ⟨hsame.symm, hname⟩)
  · exact .inl (.inl hmore)

theorem frequencyLe_antisymm {a b : String × Int} (hab : frequencyLe a b = true)
    (hba : frequencyLe b a = true) : a = b := by
  rw [frequencyLe_iff] at *
  obtain ⟨hsame, hname⟩ := hab.resolve_left (by omega)
  obtain ⟨-, hback⟩ := hba.resolve_left (by omega)
  exact Prod.ext (le_antisymm hname hback) hsame

/-- The known languages as the overview ranks them: by descending number of files, then by name. -/
structure RanksLanguages (languages ranked : List (String × Int)) : Prop where
  known : ranked.Perm (languages.filter fun entry => entry.1 != Language.unknown.name)
  ordered : ranked.Pairwise fun first second =>
    second.2 < first.2 ∨ (first.2 = second.2 ∧ first.1 ≤ second.1)

variable {languages others ranked : List (String × Int)}

theorem ranksLanguages_mergeSort (languages : List (String × Int)) :
    RanksLanguages languages
      ((languages.filter fun entry => entry.1 != Language.unknown.name).mergeSort frequencyLe) where
  known := List.mergeSort_perm _ _
  ordered := by
    simpa only [frequencyLe_iff] using
      List.pairwise_mergeSort frequencyLe_trans frequencyLe_total
        (languages.filter fun entry => entry.1 != Language.unknown.name)

/-- There is one ranking only, and it is the same for every order of the languages. -/
theorem RanksLanguages.unique {other : List (String × Int)} (h : RanksLanguages languages ranked)
    (hother : RanksLanguages others other) (hperm : languages.Perm others) : ranked = other := by
  have hsame : ranked.Perm other := h.known.trans ((hperm.filter _).trans hother.known.symm)
  have hordered := h.ordered
  have hnext := hother.ordered
  simp only [← frequencyLe_iff] at hordered hnext
  exact hsame.eq_of_pairwise (fun a b _ _ => frequencyLe_antisymm) hordered hnext

theorem RanksLanguages.techStack_eq (h : RanksLanguages languages ranked) :
    techStack languages = " | ".intercalate ((ranked.take 5).map fun entry =>
      titleCase entry.1 ++ " (" ++ toString entry.2 ++ ")") := by
  rw [h.unique (ranksLanguages_mergeSort languages) (List.Perm.refl _)]
  rfl

theorem techStack_perm (h : languages.Perm others) : techStack languages = techStack others := by
  have hranked := ranksLanguages_mergeSort languages
  rw [hranked.techStack_eq, hranked.unique (ranksLanguages_mergeSort others) h]
  rfl

/-! ## Files of a scan -/

variable {files scanned : List SourceFile}

theorem firstPath?_perm (h : files.Perm scanned) (parts : List String) :
    firstPath? files parts = firstPath? scanned parts := by
  unfold firstPath?
  rw [Sorting.mergeSort_eq_of_perm codePointLe_trans codePointLe_total ((h.map _).filter _)]
  intro a _ b _ hab hba
  exact le_antisymm (codePointLe_iff.mp hab) (codePointLe_iff.mp hba)

theorem isLayered_perm (h : files.Perm scanned) : isLayered files = isLayered scanned := by
  unfold isLayered usesLayer
  rw [h.any_eq, h.any_eq]

end Summary

/-! ## Files of a domain -/

/-- The domain with its files, which have different paths, in another order. -/
structure Domain.SameButOrder (first second : Domain) : Prop where
  files : first.files.Perm second.files
  paths : second.paths.Nodup
  rest : first = { second with files := first.files }

namespace Page

variable {files scanned : List SourceFile}

theorem pathLe_trans (a b c : SourceFile) (hab : codePointLe a.path b.path = true)
    (hbc : codePointLe b.path c.path = true) : codePointLe a.path c.path = true :=
  codePointLe_trans _ _ _ hab hbc

theorem pathLe_total (a b : SourceFile) :
    (codePointLe a.path b.path || codePointLe b.path a.path) = true := codePointLe_total _ _

theorem pairwise_sortedFiles (files : List SourceFile) :
    (sortedFiles files).Pairwise fun a b => codePointLe a.path b.path = true :=
  List.pairwise_mergeSort pathLe_trans pathLe_total files

theorem sortedFiles_perm (h : files.Perm scanned) (hpaths : (scanned.map (·.path)).Nodup) :
    sortedFiles files = sortedFiles scanned := by
  refine Sorting.mergeSort_eq_of_perm pathLe_trans pathLe_total h fun a ha b hb hab hba => ?_
  have hpath : a.path = b.path := le_antisymm (codePointLe_iff.mp hab) (codePointLe_iff.mp hba)
  exact List.inj_on_of_nodup_map hpaths (h.mem_iff.mp ha) (h.mem_iff.mp hb) hpath

theorem sectionLines_of_sameButOrder {first second : Domain} (h : first.SameButOrder second) :
    sectionLines first = sectionLines second := by
  have hfiles := sortedFiles_perm h.files h.paths
  rw [h.rest]
  unfold sectionLines
  rw [hfiles]

theorem flatMap_sectionLines {first second : List Domain}
    (h : List.Forall₂ Domain.SameButOrder first second) :
    first.flatMap sectionLines = second.flatMap sectionLines := by
  induction h with
  | nil => rfl
  | cons hdomain _ ih =>
      rw [List.flatMap_cons, List.flatMap_cons, sectionLines_of_sameButOrder hdomain, ih]

theorem messageLines_perm (h : files.Perm scanned) : messageLines files = messageLines scanned := by
  unfold messageLines Summary.contractPath? Summary.handlersPath?
  rw [Summary.firstPath?_perm h, Summary.firstPath?_perm h]

theorem domainLines_perm (h : files.Perm scanned) : domainLines files = domainLines scanned := by
  unfold domainLines
  rw [Summary.isLayered_perm h]

/-- The order of languages and of scanned files does not show in the overview, that of languages and
of the files in a domain not in the index. The overview names the five languages that are ranked
first. -/
theorem text_ignoresOrder (project : String) (summary : Summary) {languages : List (String × Int)}
    {domains : List Domain} (hlanguages : languages.Perm summary.languages)
    (hfiles : files.Perm summary.files)
    (hdomains : List.Forall₂ Domain.SameButOrder domains summary.domains) :
    Page.overview.text project { summary with languages := languages, files := files } =
        Page.overview.text project summary ∧
      Page.index.text project { summary with languages := languages, domains := domains } =
        Page.index.text project summary ∧
      ∃ ranked, (∀ other, Summary.RanksLanguages summary.languages other ↔ other = ranked) ∧
        Summary.techStack languages = " | ".intercalate ((ranked.take 5).map fun entry =>
          titleCase entry.1 ++ " (" ++ toString entry.2 ++ ")") := by
  refine ⟨?_, ?_, ?_⟩
  · change unlines (overviewLines project _) = unlines (overviewLines project summary)
    unfold overviewLines
    rw [Summary.techStack_perm hlanguages, messageLines_perm hfiles, domainLines_perm hfiles]
    rfl
  · change unlines (indexLines project _) = unlines (indexLines project summary)
    unfold indexLines figures
    rw [flatMap_sectionLines hdomains, hdomains.length_eq]
  · have hranked := Summary.ranksLanguages_mergeSort summary.languages
    refine ⟨_, fun other => ⟨fun h => h.unique hranked (List.Perm.refl _), ?_⟩, ?_⟩
    · rintro rfl
      exact hranked
    · rw [Summary.techStack_perm hlanguages, hranked.techStack_eq]

/-- Six languages with the same number of files, and a domain of two files. -/
def evenSummary : Summary :=
  let files : List SourceFile :=
    [⟨"b.py", "/p/b.py", .python, 1, 0, [], [], .main⟩, ⟨"a.go", "/p/a.go", .go, 1, 0, [], [], .main⟩]
  { files := files
    totalFiles := 2
    totalLines := 2
    languages := [("rust", 1), ("python", 1), ("java", 1), ("go", 1), ("css", 1), ("kotlin", 1)]
    domains := [⟨"Root", files, none, ["b.py", "a.go"], [], [], []⟩] }

/-- The summary from the last language and the last file on. -/
theorem text_ignoresOrder_even :
    let languages := evenSummary.languages.reverse
    let files := evenSummary.files.reverse
    let domains := evenSummary.domains.map fun domain =>
      { domain with files := domain.files.reverse }
    Page.overview.text "p" { evenSummary with languages := languages, files := files } =
        Page.overview.text "p" evenSummary ∧
      Page.index.text "p" { evenSummary with languages := languages, domains := domains } =
        Page.index.text "p" evenSummary ∧
      ∃ ranked, (∀ other, Summary.RanksLanguages evenSummary.languages other ↔ other = ranked) ∧
        Summary.techStack languages = " | ".intercalate ((ranked.take 5).map fun entry =>
          titleCase entry.1 ++ " (" ++ toString entry.2 ++ ")") :=
  text_ignoresOrder "p" evenSummary (List.reverse_perm _) (List.reverse_perm _)
    (.cons ⟨List.reverse_perm _, by decide, rfl⟩ .nil)

end Page

end SourceAtlas
