import SourceAtlas.Proofs.Import.Growth
import SourceAtlas.Proofs.Tag.Ranking
import SourceAtlas.Proofs.Tag.Reading
import SourceAtlas.Proofs.Text.OneLine
import SourceAtlas.Scan.Reading
import SourceAtlas.Tag.Proposal

/-!
# Files with a tag on top

A proposed tag begins with the start of a tag and ends with the signs of its file. A file with it on
top has a tag, at least as many lines and exports as before, and so at least the same score.
-/

namespace SourceAtlas

open Text

variable {old new : SourceFile}

/-! ## Larger files -/

/-- The file has become larger where signs look at it. -/
structure Grows (old new : SourceFile) : Prop where
  path : new.path = old.path
  language : new.language = old.language
  exports : old.exports.length ≤ new.exports.length
  lines : old.lineCount ≤ new.lineCount

theorem Grows.holds (h : Grows old new) {sign : Sign} (hold : sign.holds old = true) :
    sign.holds new = true := by
  cases sign with
  | manyExports =>
      have hmany : 5 < old.exports.length := of_decide_eq_true hold
      exact decide_eq_true (Nat.lt_of_lt_of_le hmany h.exports)
  | substantial =>
      have hmany : 200 < old.lineCount := of_decide_eq_true hold
      exact decide_eq_true (Nat.lt_of_lt_of_le hmany h.lines)
  | entrypoint | manager | rootComponent | contract =>
      unfold Sign.holds at hold ⊢
      rw [h.path]
      exact hold

theorem defaultWeight_nonneg (sign : Sign) : 0 ≤ Sign.weight [] sign := by
  cases sign <;> decide

theorem totalWeight_filter_le {p q : Sign → Bool} (hpq : ∀ sign, p sign = true → q sign = true)
    (signs : List Sign) :
    Sign.totalWeight [] (signs.filter p) ≤ Sign.totalWeight [] (signs.filter q) := by
  induction signs with
  | nil => exact Int.le_refl _
  | cons sign signs ih =>
      have hweight := defaultWeight_nonneg sign
      cases hp : p sign with
      | true =>
          rw [List.filter_cons_of_pos hp, List.filter_cons_of_pos (hpq sign hp)]
          exact Int.add_le_add_left ih _
      | false =>
          rw [List.filter_cons_of_neg (by simp [hp])]
          cases hq : q sign with
          | true =>
              rw [List.filter_cons_of_pos hq]
              exact Int.le_trans ih (Int.le_add_of_nonneg_left hweight)
          | false => rwa [List.filter_cons_of_neg (by simp [hq])]

theorem Grows.score_le (h : Grows old new) :
    (RankedFile.ofFile [] old).score ≤ (RankedFile.ofFile [] new).score :=
  totalWeight_filter_le (fun _ => h.holds) Sign.all

theorem Grows.isCandidate (h : Grows old new) (hold : RankedFile.isCandidate old = true) :
    RankedFile.isCandidate new = true := by
  rw [RankedFile.isCandidate_iff] at hold ⊢
  obtain ⟨htaggable, sign, hholds⟩ := hold
  exact ⟨h.language ▸ htaggable, sign, h.holds hholds⟩

/-! ## The text of a proposal -/

namespace InlineTag

/-- What stands in front of the signs in a proposed tag. -/
def front (file : SourceFile) (domain : Option String) : String :=
  file.language.lineComment?.getD "//" ++ " " ++ Tag.marker ++ " " ++ placeLabel domain file.layer
    ++ layerLabel file.layer ++ " "

theorem toList_suggestion (file : SourceFile) (domain : Option String) (signs : List Sign) :
    (suggestion file domain (", ".intercalate (signs.map Sign.name))).toList =
      (front file domain).toList ++ '-' :: ' ' ::
        (", ".intercalate (signs.map Sign.name)).toList := by
  have hdash : " - ".toList = " ".toList ++ ['-', ' '] := rfl
  unfold suggestion front
  simp only [String.toList_append, hdash, List.append_assoc, List.cons_append, List.nil_append]

theorem lineComment_cases (language : Language) :
    (language.lineComment?.getD "//").toList = ['/', '/'] ∨
      (language.lineComment?.getD "//").toList = ['#'] := by
  have hcases : language.lineComment?.getD "//" = "//" ∨
      language.lineComment?.getD "//" = "#" := by
    cases language <;> simp [Language.lineComment?]
  rcases hcases with h | h
  · exact .inl (by rw [h]; rfl)
  · exact .inr (by rw [h]; rfl)

/-- A proposed tag begins with the start of a tag. -/
theorem exists_isStart (file : SourceFile) (domain : Option String) (reason : String) :
    ∃ start label, Tag.IsStart start ∧ (suggestion file domain reason).toList = start ++ label := by
  have hstart : Tag.IsStart
      ((file.language.lineComment?.getD "//").toList ++ ([' '] ++ Tag.marker.toList)) :=
    ⟨[], _, [' '], (fun c hc => nomatch hc), lineComment_cases file.language,
      by simp [Tag.isIndent], (List.nil_append _).symm⟩
  refine ⟨_, (" " ++ placeLabel domain file.layer ++ layerLabel file.layer ++ " - " ++
    reason).toList, hstart, ?_⟩
  have hspace : " ".toList = [' '] := rfl
  unfold suggestion
  simp only [String.toList_append, hspace, List.append_assoc]

end InlineTag

theorem isOneLine_signs (signs : List Sign) :
    IsOneLine (", ".intercalate (signs.map Sign.name)).toList := by
  rw [String.toList_intercalate]
  induction signs with
  | nil => exact nofun
  | cons sign signs ih =>
      have hname : IsOneLine sign.name.toList := by cases sign <;> decide
      cases signs with
      | nil => simpa [List.intercalate] using hname
      | cons next signs =>
          have hsep : IsOneLine ", ".toList := by decide
          simp only [List.map_cons, List.intercalate_cons_cons, isOneLine_append] at ih ⊢
          exact ⟨⟨hname, hsep⟩, ih⟩

/-- A text with a proposed tag on top, read with translated line breaks. -/
theorem translate_tagged (file : SourceFile) (domain : Option String) (signs : List Sign)
    (text : List Char) :
    translateNewlines
        ((InlineTag.suggestion file domain (", ".intercalate (signs.map Sign.name))).toList ++
          (lineEnding text ++ text)) =
      translateNewlines (InlineTag.front file domain).toList ++ '-' :: ' ' ::
        ((", ".intercalate (signs.map Sign.name)).toList ++ '\n' :: translateNewlines text) := by
  have hreturn : '\r' ∉ '-' :: ' ' :: (", ".intercalate (signs.map Sign.name)).toList := by
    rw [List.mem_cons, List.mem_cons, not_or, not_or]
    exact ⟨by decide, by decide, (isOneLine_signs signs).not_mem_return⟩
  rw [InlineTag.toList_suggestion, List.append_assoc,
    translateNewlines_append (.inr (by simp)),
    translateNewlines_append_of_not_mem hreturn, translateNewlines_lineEnding]
  simp

/-- A file grows when a tag line is put in front of its text. -/
theorem grows_ofBytes (path location : String) {before after : List UInt8} {front : List Char}
    {signs : List Sign}
    (h : translateNewlines (Utf8.decodeReplacing after) = front ++ '-' :: ' ' ::
      ((", ".intercalate (signs.map Sign.name)).toList ++
        '\n' :: translateNewlines (Utf8.decodeReplacing before))) :
    Grows (.ofBytes path location before) (.ofBytes path location after) where
  path := rfl
  language := rfl
  exports := by
    simp only [SourceFile.ofBytes, h]
    exact length_exportsOf_le _ _ _ _
  lines := by
    simp only [SourceFile.ofBytes, h, lineCount, List.count_append, List.count_cons]
    omega

end SourceAtlas
