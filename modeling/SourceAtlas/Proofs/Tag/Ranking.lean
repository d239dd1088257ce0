import Mathlib.Data.List.Nodup
import SourceAtlas.Proofs.Sorting
import SourceAtlas.Proofs.Text.Order
import SourceAtlas.Tag.Ranking

/-!
# The best files

A file is among the best ones exactly if few enough candidates go before it: those with a larger
score, and those with the same score and a smaller path. So files that are not among the best ones
do not get there when the scores of the best ones are raised.
-/

namespace SourceAtlas

variable {weights : Sign.Weights} {limit : Int} {files after : List SourceFile}
  {file : SourceFile}

/-- The files of a list ascend by path. -/
def Ascends (files : List SourceFile) : Prop :=
  files.Pairwise fun first second => first.path < second.path

theorem Ascends.nodup (h : Ascends files) : (files.map (·.path)).Nodup :=
  List.Pairwise.map _ (fun _ _ hlt => ne_of_lt hlt) h

/-- Files that are found again by their paths are no more than there are then. -/
theorem Ascends.countP_le (h : Ascends files) {p q : SourceFile → Bool}
    (hfound : ∀ file ∈ files, p file = true →
      ∃ other ∈ after, other.path = file.path ∧ q other = true) :
    files.countP p ≤ after.countP q := by
  have hfiles : files.countP p = ((files.filter p).map (·.path)).length := by
    rw [List.length_map, List.countP_eq_length_filter]
  have hafter : after.countP q = ((after.filter q).map (·.path)).length := by
    rw [List.length_map, List.countP_eq_length_filter]
  rw [hfiles, hafter]
  have hnodup : ((files.filter p).map (·.path)).Nodup :=
    h.nodup.sublist ((List.filter_sublist).map _)
  refine (List.subperm_of_subset hnodup fun path hpath => ?_).length_le
  obtain ⟨file, hfile, rfl⟩ := List.mem_map.mp hpath
  obtain ⟨hmem, hp⟩ := List.mem_filter.mp hfile
  obtain ⟨other, hother, hsame, hq⟩ := hfound file hmem hp
  exact List.mem_map.mpr ⟨other, List.mem_filter.mpr ⟨hother, hq⟩, hsame⟩

namespace RankedFile

/-! ## The order of candidates -/

/-- A candidate is a file of a language with a line comment that shows some sign. -/
theorem isCandidate_iff : isCandidate file = true ↔
    file.language.isTaggable = true ∧ ∃ sign, Sign.holds file sign = true := by
  have hall : ∀ sign, sign ∈ Sign.all := by
    intro sign
    cases sign <;> decide
  unfold isCandidate Sign.ofFile
  simp [hall]

/-- One ranked file goes before another one. -/
def isAhead (first second : RankedFile) : Bool :=
  decide (second.score < first.score) ||
    (first.score == second.score && decide (first.file.path < second.file.path))

theorem isAhead_iff {first second : RankedFile} :
    isAhead first second = true ↔ second.score < first.score ∨
      (first.score = second.score ∧ first.file.path < second.file.path) := by
  simp [isAhead]

theorem isAhead_asymm {first second : RankedFile} (h : isAhead first second = true) :
    isAhead second first = false := by
  rw [isAhead_iff] at h
  rw [← Bool.not_eq_true, isAhead_iff]
  rcases h with hlt | ⟨hsame, hlt⟩
  · rintro (hgt | ⟨hsame, -⟩) <;> omega
  · rintro (hgt | ⟨-, hgt⟩)
    · omega
    · exact lt_asymm hlt hgt

/-- The candidates in the order of the files. -/
def unsorted (weights : Sign.Weights) (files : List SourceFile) : List RankedFile :=
  (files.filter isCandidate).map (ofFile weights)

theorem mem_unsorted {ranked : RankedFile} :
    ranked ∈ unsorted weights files ↔
      ∃ file ∈ files, isCandidate file = true ∧ ofFile weights file = ranked := by
  simp [unsorted, and_assoc]

theorem pairwise_unsorted (h : Ascends files) :
    (unsorted weights files).Pairwise fun first second => first.file.path < second.file.path :=
  List.Pairwise.map _ (fun _ _ hlt => hlt) (h.sublist List.filter_sublist)

/-- Order by score, the larger one first. -/
def scoreLe (first second : RankedFile) : Bool := decide (second.score ≤ first.score)

theorem scoreLe_trans (a b c : RankedFile) (hab : scoreLe a b = true) (hbc : scoreLe b c = true) :
    scoreLe a c = true := by
  simp only [scoreLe, decide_eq_true_eq] at *
  omega

theorem scoreLe_total (a b : RankedFile) : (scoreLe a b || scoreLe b a) = true := by
  simp only [scoreLe, Bool.or_eq_true, decide_eq_true_eq]
  omega

/-- Every candidate is ahead of the ones behind it. -/
theorem pairwise_candidates (h : Ascends files) :
    (candidates weights files).Pairwise fun first second => isAhead first second = true := by
  have hunsorted : (unsorted weights files).Pairwise _ := pairwise_unsorted h
  have hstable := Sorting.pairwise_mergeSort scoreLe_trans scoreLe_total hunsorted
  refine hstable.imp fun {first second} ⟨hle, htied⟩ => ?_
  rw [isAhead_iff]
  simp only [scoreLe, decide_eq_true_eq] at hle htied
  rcases Int.lt_or_eq_of_le hle with hlt | hsame
  · exact .inl hlt
  · exact .inr ⟨hsame.symm, htied (by omega)⟩

/-! ## The best files -/

/-- One file goes before another one. -/
def goesBefore (weights : Sign.Weights) (first second : SourceFile) : Bool :=
  isCandidate first && isAhead (ofFile weights first) (ofFile weights second)

/-- A file is among the best ones if it is a candidate and few enough go before it. -/
theorem mem_best (h : Ascends files) (weights : Sign.Weights) (limit : Int) (ranked : RankedFile) :
    ranked ∈ best weights limit files ↔
      ∃ file ∈ files, isCandidate file = true ∧ ofFile weights file = ranked ∧
        files.countP (goesBefore weights · file) < limit.toNat := by
  have hperm : (candidates weights files).Perm (unsorted weights files) :=
    List.mergeSort_perm _ _
  have hcount : ∀ file, (candidates weights files).countP (isAhead · (ofFile weights file)) =
      files.countP (goesBefore weights · file) := by
    intro file
    rw [hperm.countP_eq, unsorted, List.countP_map, List.countP_filter]
    refine List.countP_congr fun other _ => ?_
    simp [goesBefore, and_comm]
  rw [best, Sorting.mem_take_iff (fun _ _ => isAhead_asymm) (pairwise_candidates h),
    hperm.mem_iff, mem_unsorted]
  constructor
  · rintro ⟨⟨file, hfile, hcandidate, rfl⟩, hfew⟩
    exact ⟨file, hfile, hcandidate, rfl, hcount file ▸ hfew⟩
  · rintro ⟨file, hfile, hcandidate, rfl, hfew⟩
    exact ⟨⟨file, hfile, hcandidate, rfl⟩, (hcount file).symm ▸ hfew⟩

/-- The best files are different ones. -/
theorem nodup_best (h : Ascends files) (weights : Sign.Weights) (limit : Int) :
    ((best weights limit files).map (·.file.path)).Nodup := by
  have hunsorted : ((unsorted weights files).map (·.file.path)).Nodup :=
    List.Pairwise.map _ (fun _ _ hlt => ne_of_lt hlt) (pairwise_unsorted h)
  have hcandidates : ((candidates weights files).map (·.file.path)).Nodup :=
    (((List.mergeSort_perm _ _).map _).nodup_iff).mpr hunsorted
  exact hcandidates.sublist ((List.take_sublist _ _).map _)

theorem length_best_le (weights : Sign.Weights) (limit : Int) (files : List SourceFile) :
    (best weights limit files).length ≤ limit.toNat := List.length_take_le _ _

/-! ## Raised scores -/

/-- When no candidate loses score and only the best ones gain it, no other file becomes one of the
best. -/
theorem mem_best_of_raised (hfiles : Ascends files) (hafter : Ascends after)
    (hkeep : ∀ file ∈ files, isCandidate file = true → ∃ other ∈ after,
      other.path = file.path ∧ isCandidate other = true ∧
        (ofFile weights file).score ≤ (ofFile weights other).score)
    (hraised : ∀ other ∈ after, isCandidate other = true → ∃ file ∈ files,
      file.path = other.path ∧ isCandidate file = true ∧
        ((ofFile weights file).score = (ofFile weights other).score ∨
          ofFile weights file ∈ best weights limit files))
    {other : SourceFile} (hbest : ofFile weights other ∈ best weights limit after) :
    ∃ file ∈ files, file.path = other.path ∧ ofFile weights file ∈ best weights limit files := by
  obtain ⟨found, hfound, hcandidate, hsame, hfew⟩ := (mem_best hafter _ _ _).mp hbest
  obtain rfl : found = other := congrArg RankedFile.file hsame
  obtain ⟨file, hfile, hpath, hwas, hscore | hold⟩ := hraised found hfound hcandidate
  · refine ⟨file, hfile, hpath, (mem_best hfiles _ _ _).mpr ⟨file, hfile, hwas, rfl, ?_⟩⟩
    refine Nat.lt_of_le_of_lt (hfiles.countP_le fun first hfirst hbefore => ?_) hfew
    rw [goesBefore, Bool.and_eq_true, isAhead_iff] at hbefore
    obtain ⟨hfirstWas, hahead⟩ := hbefore
    obtain ⟨second, hsecond, hsecondPath, hsecondIs, hgain⟩ := hkeep first hfirst hfirstWas
    refine ⟨second, hsecond, hsecondPath, ?_⟩
    rw [goesBefore, Bool.and_eq_true, isAhead_iff]
    refine ⟨hsecondIs, ?_⟩
    rcases hahead with hlt | ⟨heq, hlt⟩
    · exact .inl (by omega)
    · have hpaths : second.path < found.path := by rwa [hsecondPath, ← hpath]
      rcases Int.lt_or_eq_of_le hgain with hmore | hequal
      · exact .inl (by omega)
      · exact .inr ⟨by omega, hpaths⟩
  · exact ⟨file, hfile, hpath, hold⟩

end RankedFile

end SourceAtlas
