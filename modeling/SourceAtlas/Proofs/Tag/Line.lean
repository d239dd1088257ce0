import SourceAtlas.Proofs.Text.Newline
import SourceAtlas.Tag.Line

/-!
# Tag lines

A tag line is the start of a tag and a label without line breaks. A tag is found at the beginning of
a text exactly if the text begins with a tag line that ends there.
-/

namespace SourceAtlas.Tag

open Text

/-- The start of a tag up to its label. -/
def IsStart (front : List Char) : Prop :=
  ∃ indent comment gap, (∀ c ∈ indent, isIndent c = true) ∧
    (comment = ['/', '/'] ∨ comment = ['#']) ∧ (∀ c ∈ gap, isIndent c = true) ∧
    front = indent ++ (comment ++ (gap ++ marker.toList))

theorem skipIndent_append {indent rest : List Char} (h : ∀ c ∈ indent, isIndent c = true)
    (hrest : rest.head?.all fun c => !isIndent c) : skipIndent (indent ++ rest) = rest := by
  unfold skipIndent
  induction indent with
  | nil =>
      cases rest with
      | nil => rfl
      | cons c rest =>
          have hc : isIndent c = false := by simpa using hrest
          simp [hc]
  | cons c indent ih =>
      rw [List.cons_append, List.dropWhile_cons_of_pos (h c List.mem_cons_self)]
      exact ih fun d hd => h d (List.mem_cons_of_mem _ hd)

theorem takeWhile_append_skipIndent (text : List Char) :
    text.takeWhile isIndent ++ skipIndent text = text := List.takeWhile_append_dropWhile

theorem isIndent_of_mem_takeWhile {text : List Char} {c : Char}
    (h : c ∈ text.takeWhile isIndent) : isIndent c = true := by
  have hall := List.all_takeWhile (p := isIndent) (l := text)
  exact List.all_eq_true.mp hall c h

theorem afterCommentStart?_eq_some {text rest : List Char}
    (h : afterCommentStart? text = some rest) :
    ∃ comment, (comment = ['/', '/'] ∨ comment = ['#']) ∧ text = comment ++ rest := by
  unfold afterCommentStart? at h
  split at h
  · cases h
    exact ⟨_, .inl rfl, rfl⟩
  · cases h
    exact ⟨_, .inr rfl, rfl⟩
  · cases h

/-- A tag begins the text exactly if the text begins with the start of one. -/
theorem afterMarker?_eq_some_iff {text label : List Char} :
    afterMarker? text = some label ↔ ∃ front, IsStart front ∧ text = front ++ label := by
  constructor
  · intro h
    obtain ⟨rest, hcomment, hmarker⟩ := Option.bind_eq_some_iff.mp h
    obtain ⟨comment, hmem, hskip⟩ := afterCommentStart?_eq_some hcomment
    have hlabel := dropStart?_eq_some_iff.mp hmarker
    refine ⟨_, ⟨text.takeWhile isIndent, comment, rest.takeWhile isIndent,
      fun _ => isIndent_of_mem_takeWhile, hmem, fun _ => isIndent_of_mem_takeWhile, rfl⟩, ?_⟩
    simp only [List.append_assoc]
    rw [← hlabel, takeWhile_append_skipIndent, ← hskip, takeWhile_append_skipIndent]
  · rintro ⟨front, ⟨indent, comment, gap, hindent, hcomment, hgap, rfl⟩, rfl⟩
    unfold afterMarker?
    have hmarker : dropStart? marker.toList (skipIndent (gap ++ (marker.toList ++ label))) =
        some label := by
      rw [skipIndent_append hgap (by rfl)]
      exact dropStart?_eq_some_iff.mpr rfl
    simp only [List.append_assoc]
    rcases hcomment with rfl | rfl
    · rw [skipIndent_append hindent (by rfl)]
      exact hmarker
    · rw [skipIndent_append hindent (by rfl)]
      exact hmarker

/-! ## Tag lines -/

/-- A tag: its start and its label. -/
def IsTagLine (tag : List Char) : Prop :=
  ∃ front label, IsStart front ∧ (∀ c ∈ label, isBreak c = false) ∧ tag = front ++ label

theorem IsStart.ne_nil {front : List Char} (h : IsStart front) : front ≠ [] := by
  obtain ⟨indent, comment, gap, -, hcomment, -, rfl⟩ := h
  rcases hcomment with rfl | rfl <;> simp

theorem IsStart.isBreak {front : List Char} (h : IsStart front) :
    ∀ c ∈ front, isBreak c = false := by
  obtain ⟨indent, comment, gap, hindent, hcomment, hgap, rfl⟩ := h
  have hblank : ∀ c, isIndent c = true → Tag.isBreak c = false := by
    intro c hc
    simp only [isIndent, Bool.or_eq_true, beq_iff_eq] at hc
    rcases hc with rfl | rfl <;> rfl
  have hcommentBreak : ∀ c ∈ comment, Tag.isBreak c = false := by
    rcases hcomment with rfl | rfl <;> simp [Tag.isBreak]
  have hmarker : ∀ c ∈ marker.toList, Tag.isBreak c = false := by simp [marker, Tag.isBreak]
  intro c hc
  simp only [List.mem_append] at hc
  rcases hc with hc | hc | hc | hc
  · exact hblank c (hindent c hc)
  · exact hcommentBreak c hc
  · exact hblank c (hgap c hc)
  · exact hmarker c hc

theorem IsTagLine.isBreak {tag : List Char} (h : IsTagLine tag) : ∀ c ∈ tag, isBreak c = false := by
  obtain ⟨front, label, hfront, hlabel, rfl⟩ := h
  intro c hc
  rcases List.mem_append.mp hc with hc | hc
  · exact hfront.isBreak c hc
  · exact hlabel c hc

theorem IsTagLine.ne_nil {tag : List Char} (h : IsTagLine tag) : tag ≠ [] := by
  obtain ⟨front, label, hfront, -, rfl⟩ := h
  simp [hfront.ne_nil]

theorem IsTagLine.not_mem_return {tag : List Char} (h : IsTagLine tag) : '\r' ∉ tag :=
  fun hmem => absurd (h.isBreak _ hmem) (by decide)

theorem IsTagLine.not_mem_feed {tag : List Char} (h : IsTagLine tag) : '\n' ∉ tag :=
  fun hmem => absurd (h.isBreak _ hmem) (by decide)

/-- A line ends where the text does or where a line break begins. -/
def EndsLine (after : List Char) : Prop := ∀ c ∈ after.head?, isBreak c = true

theorem dropWhile_of_endsLine {label after : List Char} (hlabel : ∀ c ∈ label, isBreak c = false)
    (hafter : EndsLine after) : (label ++ after).dropWhile (fun c => !isBreak c) = after := by
  induction label with
  | nil =>
      cases after with
      | nil => rfl
      | cons c after =>
          have hc : isBreak c = true := hafter c rfl
          rw [List.nil_append, List.dropWhile_cons_of_neg (by simp [hc])]
  | cons c label ih =>
      have hc := hlabel c List.mem_cons_self
      rw [List.cons_append, List.dropWhile_cons_of_pos (by simp [hc])]
      exact ih fun d hd => hlabel d (List.mem_cons_of_mem _ hd)

theorem endsLine_dropWhile (label : List Char) :
    EndsLine (label.dropWhile fun c => !isBreak c) := by
  intro c hc
  have hnot := List.head?_dropWhile_not (fun c => !isBreak c) label
  rw [Option.mem_def.mp hc] at hnot
  simpa using hnot

/-- A tag begins the text exactly if a tag line does. -/
theorem afterTag?_eq_some_iff {text after : List Char} :
    afterTag? text = some after ↔ ∃ tag, IsTagLine tag ∧ EndsLine after ∧ text = tag ++ after := by
  unfold afterTag?
  rw [Option.map_eq_some_iff]
  constructor
  · rintro ⟨label, hlabel, rfl⟩
    obtain ⟨front, hfront, rfl⟩ := afterMarker?_eq_some_iff.mp hlabel
    refine ⟨front ++ label.takeWhile fun c => !isBreak c, ⟨front, _, hfront, ?_, rfl⟩,
      endsLine_dropWhile label, ?_⟩
    · intro c hc
      have hall := List.all_takeWhile (p := fun c => !isBreak c) (l := label)
      simpa using List.all_eq_true.mp hall c hc
    · rw [List.append_assoc, List.takeWhile_append_dropWhile]
  · rintro ⟨tag, ⟨front, label, hfront, hlabel, rfl⟩, hafter, rfl⟩
    refine ⟨label ++ after, afterMarker?_eq_some_iff.mpr ⟨front, hfront, ?_⟩, ?_⟩
    · rw [List.append_assoc]
    · exact dropWhile_of_endsLine hlabel hafter

theorem endsLine_translate_iff {after : List Char} :
    EndsLine (translateNewlines after) ↔ EndsLine after := by
  cases after with
  | nil => exact Iff.rfl
  | cons c rest =>
      unfold EndsLine
      rw [head?_translateNewlines]
      by_cases hc : c = '\r'
      · subst hc
        simp [isBreak]
      · rw [if_neg hc, List.head?_cons]

theorem endsLine_of_translated {text back : List Char}
    (h : translateNewlines text = '\n' :: back) : EndsLine text := by
  rw [← endsLine_translate_iff, h]
  intro c hc
  cases hc
  rfl

end SourceAtlas.Tag
