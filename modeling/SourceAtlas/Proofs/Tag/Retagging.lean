import SourceAtlas.Proofs.Tag.First
import SourceAtlas.Proofs.Text.Utf8

/-!
# Rewriting the tag of a text

A text with a new tag on top is the tag, a line ending like the first one of the text, and the text
without the line of its first tag. The new tag is then the first one, so the next rewriting takes
out just what this one put in, and the last tag wins.
-/

namespace SourceAtlas

namespace Text

/-- The first line feed of a text has a return in front of it. -/
def BreaksWithReturn (text : List Char) : Prop :=
  ∃ front back, '\n' ∉ front ∧ text = front ++ '\r' :: '\n' :: back

theorem breaksWithReturn_cons {c : Char} {text : List Char} (hc : c ≠ '\n')
    (h : c ≠ '\r' ∨ text.head? ≠ some '\n') :
    BreaksWithReturn (c :: text) ↔ BreaksWithReturn text := by
  constructor
  · rintro ⟨front, back, hfront, heq⟩
    cases front with
    | nil =>
        cases heq
        simp at h
    | cons d front =>
        obtain ⟨-, rfl⟩ := List.cons.inj heq
        exact ⟨front, back, fun hmem => hfront (List.mem_cons_of_mem _ hmem), rfl⟩
  · rintro ⟨front, back, hfront, rfl⟩
    exact ⟨c :: front, back, by simp [hfront, Ne.symm hc], rfl⟩

theorem firstBreakIsCrlf_iff (text : List Char) :
    firstBreakIsCrlf text = true ↔ BreaksWithReturn text := by
  induction text using firstBreakIsCrlf.induct with
  | case1 =>
      refine iff_of_false Bool.false_ne_true ?_
      rintro ⟨front, back, -, heq⟩
      cases front <;> cases heq
  | case2 rest =>
      refine iff_of_false Bool.false_ne_true ?_
      rintro ⟨front, back, hfront, heq⟩
      cases front with
      | nil => cases heq
      | cons c front =>
          cases heq
          exact hfront List.mem_cons_self
  | case3 rest => exact iff_of_true rfl ⟨[], rest, List.not_mem_nil, rfl⟩
  | case4 c rest hc hpair ih =>
      have hhead : c ≠ '\r' ∨ rest.head? ≠ some '\n' := by
        by_cases hreturn : c = '\r'
        · exact .inr (head?_ne_feed fun behind => hpair behind hreturn)
        · exact .inl hreturn
      rw [firstBreakIsCrlf, ih, breaksWithReturn_cons hc hhead]
      · exact hc
      · exact hpair

theorem isFeed_lineEnding (text : List Char) : Tag.IsFeed (lineEnding text) := by
  unfold lineEnding
  split
  · exact .inr rfl
  · exact .inl rfl

theorem lineEnding_eq_crlf_iff (text : List Char) :
    lineEnding text = ['\r', '\n'] ↔ BreaksWithReturn text := by
  rw [← firstBreakIsCrlf_iff]
  unfold lineEnding
  split
  · next h => exact iff_of_true rfl h
  · next h => exact iff_of_false (by decide) h

/-- In front of the first line break nothing decides the line ending. -/
theorem firstBreakIsCrlf_append {front : List Char} (h : ∀ c ∈ front, Tag.isBreak c = false)
    (back : List Char) : firstBreakIsCrlf (front ++ back) = firstBreakIsCrlf back := by
  induction front with
  | nil => rfl
  | cons c front ih =>
      have hc := h c List.mem_cons_self
      simp only [Tag.isBreak, Bool.or_eq_false_iff, beq_eq_false_iff_ne] at hc
      rw [List.cons_append, firstBreakIsCrlf, ih fun d hd => h d (List.mem_cons_of_mem _ hd)]
      · exact hc.1
      · exact fun _ hreturn _ => hc.2 hreturn

end Text

namespace Tag

open Text

variable {tag : List Char} (htag : IsTagLine tag)

/-- A text is a tag in full exactly if a tag begins it and leaves nothing. -/
theorem afterTag?_eq_nil_iff {text : List Char} : afterTag? text = some [] ↔ IsTagLine text := by
  rw [afterTag?_eq_some_iff]
  constructor
  · rintro ⟨tag, htag, -, rfl⟩
    rwa [List.append_nil]
  · exact fun htag => ⟨text, htag, nofun, (List.append_nil _).symm⟩

include htag

/-- The line ending behind a tag is the first one of the text. -/
theorem lineEnding_of_tag {feed : List Char} (hfeed : IsFeed feed) (rest : List Char) :
    lineEnding (tag ++ (feed ++ rest)) = feed := by
  unfold lineEnding
  rw [firstBreakIsCrlf_append htag.isBreak]
  rcases hfeed with rfl | rfl <;> rfl

theorem strip_of_tag {feed : List Char} (hfeed : IsFeed feed) (rest : List Char) :
    strip (tag ++ (feed ++ rest)) = rest := by
  rw [strip_eq_stripFrom, stripFrom_of_tag htag (hfeed.endsLine_append rest),
    hfeed.dropBreak_append]

omit htag

/-- What a text is made of when it was rewritten with a tag, and which tag is found in it. -/
structure IsRetagged (tag content text : List Char) : Prop where
  parts : ∃ ending rest, text = tag ++ (ending ++ rest) ∧ IsFeed ending ∧
    (ending = ['\r', '\n'] ↔ BreaksWithReturn content) ∧ LosesTag content rest
  find : find? text = some tag
  find_translated : find? (translateNewlines text) = some tag

theorem isRetagged_append (htag : IsTagLine tag) (content : List Char) :
    IsRetagged tag content (tag ++ (lineEnding content ++ strip content)) where
  parts := ⟨lineEnding content, strip content, rfl, isFeed_lineEnding content,
    lineEnding_eq_crlf_iff content, losesTag_strip content⟩
  find := find?_of_tag htag ((isFeed_lineEnding content).endsLine_append _)
  find_translated := by
    rw [translateNewlines_append_of_not_mem htag.not_mem_return, translateNewlines_lineEnding]
    exact find?_of_tag htag ((IsFeed.endsLine_append (.inl rfl)) _)

/-- A text that is rewritten with a tag has this tag, a line ending like the first one of the text,
and the text without its first tag line. Rewriting it once more gives what rewriting the text itself
gives, so the last tag wins and a repeated one changes nothing. -/
theorem retag_lastWins (htag : IsTagLine tag) (content : List Char) :
    ∃ text, retag tag content = .ofList text ∧ IsRetagged tag content text ∧
      ∀ later : Draft, retag later text = retag later content := by
  refine ⟨_, Draft.ofList_append _ _, isRetagged_append htag content, fun later => ?_⟩
  have hfeed := isFeed_lineEnding content
  unfold retag
  rw [lineEnding_of_tag htag hfeed, strip_of_tag htag hfeed]

/-- A tag deep in a text with mixed line endings gives way to a new one on top. -/
theorem retag_lastWins_mixed :
    IsTagLine "// @atlas-entrypoint: B - b".toList ∧
    ∃ text, retag "// @atlas-entrypoint: B - b".toList
        "x\ry\r\n\t# @atlas-entrypoint: A\nz".toList = .ofList text ∧
      IsRetagged "// @atlas-entrypoint: B - b".toList
        "x\ry\r\n\t# @atlas-entrypoint: A\nz".toList text ∧
      ∀ later : Draft, retag later text = retag later "x\ry\r\n\t# @atlas-entrypoint: A\nz".toList :=
  have htag : IsTagLine "// @atlas-entrypoint: B - b".toList :=
    afterTag?_eq_nil_iff.mp (by decide)
  ⟨htag, retag_lastWins htag _⟩

/-- The text that comes out in this case. -/
example : retag "// @atlas-entrypoint: B - b".toList
    "x\ry\r\n\t# @atlas-entrypoint: A\nz".toList =
      .ofList "// @atlas-entrypoint: B - b\r\nx\ry\r\nz".toList := by decide +kernel

end Tag

end SourceAtlas
