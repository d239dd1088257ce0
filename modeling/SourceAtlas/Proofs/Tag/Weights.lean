import SourceAtlas.Proofs.Tag.Places

/-!
# Files whose weights cancel

A candidate shows a sign, but its score may be zero: the weight of the sign may be set to zero, or
weights may cancel. Such files stand behind those with a positive score, in the order of the list, and
they are proposed as far as the limit leaves room for them.
-/

namespace SourceAtlas

/-- A member is among the first ones of a list if what stands in front of it is shorter. -/
theorem mem_take_append_cons {α : Type} {front back : List α} {item : α} (h : item ∉ front)
    (count : Nat) : item ∈ (front ++ item :: back).take count ↔ front.length < count := by
  rw [List.take_append, List.mem_append,
    or_iff_right fun hmem => h (List.mem_of_mem_take hmem)]
  constructor
  · intro hmem
    by_contra hshort
    rw [Nat.sub_eq_zero_of_le (by omega), List.take_zero] at hmem
    exact List.not_mem_nil hmem
  · intro hshort
    obtain ⟨room, hroom⟩ := Nat.exists_eq_succ_of_ne_zero (n := count - front.length) (by omega)
    rw [hroom, List.take_succ_cons]
    exact List.mem_cons_self

namespace RankedFile

variable {weights : Sign.Weights} {files front back : List SourceFile} {file : SourceFile}
  {sign : Sign}

/-- The file is a candidate, and its weights add up to zero. -/
def isIdle (weights : Sign.Weights) (file : SourceFile) : Bool :=
  isCandidate file && (ofFile weights file).score == 0

/-- The file is a candidate with a positive score. -/
def isGainful (weights : Sign.Weights) (file : SourceFile) : Bool :=
  isCandidate file && decide (0 < (ofFile weights file).score)

/-! ## Candidates by the sign of their score -/

theorem pairwise_scoreLe (weights : Sign.Weights) (files : List SourceFile) :
    (candidates weights files).Pairwise fun first second => scoreLe first second = true :=
  List.pairwise_mergeSort scoreLe_trans scoreLe_total _

theorem filter_zero_candidates (weights : Sign.Weights) (files : List SourceFile) :
    (candidates weights files).filter (·.score == 0) =
      (files.filter (isIdle weights)).map (ofFile weights) := by
  have htied : Sorting.isTied scoreLe ⟨default, [], 0⟩ = fun ranked => ranked.score == 0 := by
    funext ranked
    rw [Bool.eq_iff_iff]
    simp only [Sorting.isTied, scoreLe, Bool.and_eq_true, decide_eq_true_eq, beq_iff_eq]
    omega
  have hkept := Sorting.filter_mergeSort scoreLe_trans scoreLe_total
    ((files.filter isCandidate).map (ofFile weights)) ⟨default, [], 0⟩
  rw [htied] at hkept
  refine hkept.trans ?_
  rw [List.filter_map, List.filter_filter]
  exact congrArg _ (List.filter_congr fun file _ => Bool.and_comm _ _)

theorem length_filter_positive (weights : Sign.Weights) (files : List SourceFile) :
    ((candidates weights files).filter fun ranked => decide (0 < ranked.score)).length =
      files.countP (isGainful weights) := by
  have hperm := (List.mergeSort_perm ((files.filter isCandidate).map (ofFile weights)) scoreLe).filter
    fun ranked => decide (0 < ranked.score)
  refine hperm.length_eq.trans ?_
  rw [List.filter_map, List.filter_filter, List.length_map, ← List.countP_eq_length_filter]
  exact List.countP_congr fun file _ => by simp [isGainful, and_comm]

/-- Behind the candidates with a positive score come those with none, then those below zero. -/
theorem candidates_split (weights : Sign.Weights) (files : List SourceFile) :
    ∃ gainful costly, candidates weights files =
        gainful ++ ((files.filter (isIdle weights)).map (ofFile weights) ++ costly) ∧
      gainful.length = files.countP (isGainful weights) ∧
      (∀ ranked ∈ gainful, 0 < ranked.score) ∧ ∀ ranked ∈ costly, ranked.score < 0 := by
  have hsorted := pairwise_scoreLe weights files
  have hgainful := Sorting.filter_append_filter_not (p := fun ranked => decide (0 < ranked.score))
    (hsorted.imp fun {first second} hle => by
      simp only [scoreLe, decide_eq_true_eq] at hle ⊢
      omega)
  have hothers := Sorting.filter_append_filter_not (p := fun ranked => ranked.score == 0)
    ((hsorted.filter fun ranked => !decide (0 < ranked.score)).imp_of_mem
      fun {first second} hfirst _ hle => by
        have hmost := (List.mem_filter.mp hfirst).2
        simp only [scoreLe, decide_eq_true_eq, Bool.not_eq_true', decide_eq_false_iff_not,
          beq_iff_eq] at hle hmost ⊢
        omega)
  have hidle : ((candidates weights files).filter fun ranked => !decide (0 < ranked.score)).filter
      (·.score == 0) = (files.filter (isIdle weights)).map (ofFile weights) := by
    rw [← filter_zero_candidates, List.filter_filter]
    refine List.filter_congr fun ranked _ => ?_
    rw [Bool.eq_iff_iff]
    simp only [Bool.and_eq_true, beq_iff_eq, Bool.not_eq_true', decide_eq_false_iff_not]
    omega
  rw [hidle] at hothers
  refine ⟨_, _, (congrArg _ hothers).trans hgainful |>.symm, length_filter_positive weights files,
    fun ranked hranked => of_decide_eq_true (List.mem_filter.mp hranked).2, fun ranked hranked => ?_⟩
  obtain ⟨hmem, hnonzero⟩ := List.mem_filter.mp hranked
  have hmost := (List.mem_filter.mp hmem).2
  simp only [Bool.not_eq_true', decide_eq_false_iff_not, beq_eq_false_iff_ne] at hmost hnonzero
  omega

/-- The idle files that are proposed are the first ones of all, as many as there is room for. -/
theorem filter_zero_best (weights : Sign.Weights) (limit : Int) (files : List SourceFile) :
    (best weights limit files).filter (·.score == 0) =
      ((files.filter (isIdle weights)).take
        (limit.toNat - files.countP (isGainful weights))).map (ofFile weights) := by
  obtain ⟨gainful, costly, hsplit, hlength, hgainful, hcostly⟩ := candidates_split weights files
  have hfirst : (gainful.take limit.toNat).filter (·.score == 0) = [] := by
    refine List.filter_eq_nil_iff.mpr fun ranked hranked => ?_
    have hpos := hgainful ranked (List.mem_of_mem_take hranked)
    simp only [beq_iff_eq]
    omega
  have hlast : ∀ count, (costly.take count).filter (·.score == 0) = [] := by
    refine fun count => List.filter_eq_nil_iff.mpr fun ranked hranked => ?_
    have hneg := hcostly ranked (List.mem_of_mem_take hranked)
    simp only [beq_iff_eq]
    omega
  rw [best, hsplit, List.take_append, List.take_append, List.filter_append, List.filter_append,
    hfirst, hlast, List.nil_append, List.append_nil, hlength, List.map_take]
  refine List.filter_eq_self.mpr fun ranked hranked => ?_
  obtain ⟨file, hfile, rfl⟩ := List.mem_map.mp (List.mem_of_mem_take hranked)
  have hidle := (List.mem_filter.mp hfile).2
  rw [isIdle, Bool.and_eq_true] at hidle
  exact hidle.2

/-! ## Signs without weight -/

theorem score_of_single (h : ∀ other, Sign.holds file other = true ↔ other = sign) :
    (ofFile weights file).score = Sign.weight weights sign := by
  have hsigns : Sign.ofFile file = Sign.all.filter (· == sign) :=
    List.filter_congr fun other _ => by
      rw [Bool.eq_iff_iff, h other, beq_iff_eq]
  have hone : Sign.all.filter (· == sign) = [sign] := by cases sign <;> rfl
  unfold ofFile
  dsimp only
  rw [hsigns, hone]
  exact Int.add_zero _

theorem totalWeight_nonneg (h : ∀ sign, 0 < Sign.weight weights sign) (signs : List Sign) :
    0 ≤ Sign.totalWeight weights signs := by
  induction signs with
  | nil => exact Int.le_refl _
  | cons first rest ih => exact Int.add_nonneg (h first).le ih

theorem score_pos (h : ∀ sign, 0 < Sign.weight weights sign) (hcandidate : isCandidate file = true) :
    0 < (ofFile weights file).score := by
  unfold isCandidate at hcandidate
  unfold ofFile
  dsimp only
  cases hsigns : Sign.ofFile file with
  | nil => simp [hsigns] at hcandidate
  | cons first rest => exact Int.add_pos_of_pos_of_nonneg (h first) (totalWeight_nonneg h rest)

theorem mem_best_of_idle (hidle : isIdle weights file = true) (hfront : file ∉ front)
    (limit : Int) :
    ofFile weights file ∈ best weights limit (front ++ file :: back) ↔
      (front ++ file :: back).countP (isGainful weights) + front.countP (isIdle weights) <
        limit.toNat := by
  have hzero : ((ofFile weights file).score == 0) = true := by
    rw [isIdle, Bool.and_eq_true] at hidle
    exact hidle.2
  have hinjective : Function.Injective (ofFile weights) := fun _ _ h => congrArg RankedFile.file h
  have hfiltered : ofFile weights file ∈ best weights limit (front ++ file :: back) ↔
      ofFile weights file ∈ (best weights limit (front ++ file :: back)).filter (·.score == 0) := by
    rw [List.mem_filter, and_iff_left hzero]
  rw [hfiltered, filter_zero_best, List.mem_map_of_injective hinjective, List.filter_append,
    List.filter_cons_of_pos hidle,
    mem_take_append_cons (fun hmem => hfront (List.mem_of_mem_filter hmem)),
    ← List.countP_eq_length_filter]
  omega

/-- The proposed files with a score of zero are the first candidates of such a score, as many as the
candidates of a positive score leave room for. So there are none exactly if no candidate has a score
of zero or the others use up the limit, and a file that shows one sign, of weight zero, is proposed
exactly if there is room for it. Where all weights are positive, so is every score. -/
theorem best_zeroScores (weights : Sign.Weights) (limit : Int) (files : List SourceFile) :
    (best weights limit files).filter (·.score == 0) =
        ((files.filter (isIdle weights)).take
          (limit.toNat - files.countP (isGainful weights))).map (ofFile weights) ∧
      ((∀ ranked ∈ best weights limit files, ranked.score ≠ 0) ↔
        (∀ file ∈ files, MayBeProposed file → (ofFile weights file).score ≠ 0) ∨
          limit.toNat ≤ files.countP (isGainful weights)) ∧
      (∀ front file back, files = front ++ file :: back → file ∉ front →
        file.language.lineComment?.isSome = true →
        ∀ sign, (∀ other, Sign.holds file other = true ↔ other = sign) →
          Sign.weight weights sign = 0 →
            (ofFile weights file ∈ best weights limit files ↔
              files.countP (isGainful weights) + front.countP (isIdle weights) < limit.toNat)) ∧
      ((∀ sign, 0 < Sign.weight weights sign) →
        ∀ file ∈ files, MayBeProposed file → 0 < (ofFile weights file).score) := by
  refine ⟨filter_zero_best weights limit files, ?_, ?_, fun hpos file _ hcandidate =>
    score_pos hpos (mayBeProposed_iff.mp hcandidate)⟩
  · have hnone : (∀ ranked ∈ best weights limit files, ranked.score ≠ 0) ↔
        (best weights limit files).filter (·.score == 0) = [] := by
      simp only [List.filter_eq_nil_iff, beq_iff_eq, ne_eq]
    have hidle : (∀ file ∈ files, MayBeProposed file → (ofFile weights file).score ≠ 0) ↔
        files.filter (isIdle weights) = [] := by
      simp only [List.filter_eq_nil_iff, isIdle, Bool.and_eq_true, beq_iff_eq, mayBeProposed_iff,
        not_and, ne_eq]
    rw [hnone, hidle, filter_zero_best, List.map_eq_nil_iff, List.take_eq_nil_iff,
      Nat.sub_eq_zero_iff_le, or_comm]
  · rintro front file back rfl hfront hcomment sign hsingle hweight
    have hcandidate : MayBeProposed file := ⟨hcomment, sign, (hsingle sign).mpr rfl⟩
    refine mem_best_of_idle ?_ hfront limit
    rw [isIdle, mayBeProposed_iff.mp hcandidate, score_of_single hsingle, hweight]
    rfl

/-- An index of three lines. -/
def plainIndex : SourceFile where
  path := "src/index.ts"
  location := "/p/src/index.ts"
  language := .typescript
  lineCount := 3
  sizeBytes := 30

/-- The index is proposed although the weight of the only sign that it shows is set to zero. -/
theorem best_zeroScores_disabled :
    Sign.weight [("entrypoint", 0)] .entrypoint = 0 ∧ Sign.ofFile plainIndex = [.entrypoint] ∧
      ofFile [("entrypoint", 0)] plainIndex ∈ best [("entrypoint", 0)] 5 [plainIndex] := by
  have hsingle : ∀ other, Sign.holds plainIndex other = true ↔ other = .entrypoint := by
    intro other
    cases other <;> decide +kernel
  have hruns := (best_zeroScores [("entrypoint", 0)] 5 [plainIndex]).2.2.1 [] plainIndex [] rfl
    List.not_mem_nil rfl .entrypoint hsingle rfl
  exact ⟨rfl, by decide +kernel, hruns.mpr (by decide +kernel)⟩

end RankedFile

end SourceAtlas
