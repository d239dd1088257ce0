import SourceAtlas.Proofs.Text.Utf8
import SourceAtlas.Tag.Line
import SourceAtlas.Text.Case

/-!
# Texts of one line

A text is one line if no character of it is a line break. Case mappings neither make a line break nor
take one away, so the title of a name is one line exactly if the name is.
-/

namespace SourceAtlas.Text

open Tag (isBreak)

/-- No character of the text is a line break. -/
def IsOneLine (text : List Char) : Prop := ∀ c ∈ text, isBreak c = false

instance (text : List Char) : Decidable (IsOneLine text) :=
  List.decidableBAll (isBreak · = false) text

variable {text part : List Char} {c : Char}

theorem IsOneLine.not_mem_return (h : IsOneLine text) : '\r' ∉ text :=
  fun hmem => absurd (h _ hmem) (by decide)

theorem isOneLine_append {first second : List Char} :
    IsOneLine (first ++ second) ↔ IsOneLine first ∧ IsOneLine second := List.forall_mem_append

theorem isOneLine_cons : IsOneLine (c :: text) ↔ isBreak c = false ∧ IsOneLine text :=
  List.forall_mem_cons

theorem IsOneLine.of_subset (h : IsOneLine text) (hpart : part ⊆ text) : IsOneLine part :=
  fun c hc => h c (hpart hc)

theorem isOneLine_map {f : Char → Char} (hf : ∀ c, isBreak (f c) = isBreak c) :
    IsOneLine (text.map f) ↔ IsOneLine text := by
  simp [IsOneLine, hf]

/-- Parts are joined to one line exactly if each of them is one. -/
theorem isOneLine_join {sep : Char} (hsep : isBreak sep = false) {parts : List (List Char)} :
    IsOneLine (join sep parts) ↔ ∀ part ∈ parts, IsOneLine part := by
  induction parts with
  | nil => exact iff_of_true nofun nofun
  | cons first rest ih =>
      rw [List.forall_mem_cons, ← ih]
      cases rest with
      | nil => exact (and_iff_left nofun).symm
      | cons next rest =>
          have hjoin : join sep (first :: next :: rest) = first ++ sep :: join sep (next :: rest) := rfl
          rw [hjoin, isOneLine_append, isOneLine_cons, and_iff_right hsep]

/-! ## Case mappings -/

theorem isBreak_of_lt (h : 13 < c.toNat) : isBreak c = false := by
  have hfeed : c ≠ '\n' := fun hsame => absurd (hsame ▸ h) (by decide)
  have hreturn : c ≠ '\r' := fun hsame => absurd (hsame ▸ h) (by decide)
  simp [isBreak, hfeed, hreturn]

theorem isBreak_ofNat {n : Nat} (h : 13 < n) : isBreak (Char.ofNat n) = false := by
  by_cases hvalid : n.isValidChar
  · exact isBreak_of_lt (by rwa [Utf8.toNat_ofNat hvalid])
  · unfold Char.ofNat
    rw [dif_neg hvalid]
    rfl

theorem of_ascii {P : Char → Prop} (h : ∀ n < 128, P (Char.ofNat n)) (hc : c.toNat < 128) :
    P c := by
  have hone := h c.toNat hc
  rwa [Char.ofNat_toNat] at hone

theorem isBreak_toUpper (hc : c.toNat < 128) : isBreak c.toUpper = isBreak c :=
  of_ascii (P := fun c => isBreak c.toUpper = isBreak c) (by decide) hc

theorem isBreak_toLower (hc : c.toNat < 128) : isBreak c.toLower = isBreak c :=
  of_ascii (P := fun c => isBreak c.toLower = isBreak c) (by decide) hc

/-- Runs that do not lead to the first characters do not lead to line breaks. -/
theorem isBreak_shiftCase {runs : List CaseRun} (hruns : ∀ run ∈ runs, 13 < run.first + run.offset)
    (hc : isBreak c = false) : isBreak (shiftCase runs c) = false := by
  unfold shiftCase
  split
  · next run hfind =>
    have hrun := hruns run (List.mem_of_find?_eq_some hfind)
    have hcovers := List.find?_some hfind
    simp only [CaseRun.covers, Bool.and_eq_true, decide_eq_true_eq] at hcovers
    exact isBreak_ofNat (by omega)
  · exact hc

theorem isOneLine_upperChar (c : Char) : IsOneLine (upperChar c) ↔ isBreak c = false := by
  have hruns : ∀ run ∈ upperRuns, 13 < (run.first : Int) + run.offset := by decide +kernel
  have htable : ∀ item ∈ upperExpansions, ∀ code ∈ item.2, 13 < code := by decide +kernel
  unfold upperChar
  split
  · next hc => simp [IsOneLine, isBreak_toUpper hc]
  · next hlarge =>
    have hc : isBreak c = false := isBreak_of_lt (by omega)
    refine iff_of_true ?_ hc
    split
    · next codes hlookup =>
      obtain ⟨front, back, hsplit, -⟩ := List.lookup_eq_some_iff.mp hlookup
      have hmem : (c.toNat, codes) ∈ upperExpansions := by simp [hsplit]
      intro d hd
      obtain ⟨code, hcode, rfl⟩ := List.mem_map.mp hd
      exact isBreak_ofNat (htable _ hmem code hcode)
    · intro d hd
      rw [List.mem_singleton.mp hd]
      exact isBreak_shiftCase hruns hc

theorem isOneLine_lowerChar (c : Char) : IsOneLine (lowerChar c) ↔ isBreak c = false := by
  have hruns : ∀ run ∈ lowerRuns, 13 < (run.first : Int) + run.offset := by decide +kernel
  unfold lowerChar
  split
  · next hc => simp [IsOneLine, isBreak_toLower hc]
  · next hlarge =>
    have hc : isBreak c = false := isBreak_of_lt (by omega)
    refine iff_of_true ?_ hc
    split
    · simp [IsOneLine, isBreak_ofNat]
    · intro d hd
      rw [List.mem_singleton.mp hd]
      exact isBreak_shiftCase hruns hc

theorem isOneLine_capitalize : IsOneLine (capitalize text) ↔ IsOneLine text := by
  cases text with
  | nil => exact Iff.rfl
  | cons c rest => rw [capitalize, isOneLine_append, isOneLine_upperChar, isOneLine_cons]

theorem isOneLine_uncapitalize : IsOneLine (uncapitalize text) ↔ IsOneLine text := by
  cases text with
  | nil => exact Iff.rfl
  | cons c rest => rw [uncapitalize, isOneLine_append, isOneLine_lowerChar, isOneLine_cons]

/-- The title of a name is one line exactly if the name is. -/
theorem isOneLine_titleCase (name : String) :
    IsOneLine (titleCase name).toList ↔ IsOneLine name.toList := by
  have hhyphens : ∀ c : Char, isBreak (if c = '_' then '-' else c) = isBreak c := by
    intro c
    split
    · next h => rw [h]; rfl
    · rfl
  have hhyphen : isBreak '-' = false := rfl
  have hwords : (∀ word ∈ nameWords name.toList, IsOneLine word) ↔ IsOneLine name.toList := by
    unfold nameWords
    rw [← isOneLine_join hhyphen, join_split, isOneLine_map hhyphens]
  unfold titleCase
  rw [String.toList_ofList, isOneLine_join rfl, List.forall_mem_map, ← hwords]
  exact forall₂_congr fun _ _ => isOneLine_capitalize

end SourceAtlas.Text
