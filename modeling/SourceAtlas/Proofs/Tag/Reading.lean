import SourceAtlas.Proofs.Tag.Line
import SourceAtlas.Proofs.Text.Newline

/-!
# The first tag of a translated text

A tag is read in a text with translated line breaks, where it may begin after any line break of the
text itself. So the first tag that is read is the one that comes first when a return ends a line. No
tag gets lost, so a text without a tag in its translated form has none at all.
-/

namespace SourceAtlas.Tag

open Text

/-- Translating a text translates what follows the tag that begins it. -/
theorem afterTag?_translateNewlines (text : List Char) :
    afterTag? (translateNewlines text) = (afterTag? text).map translateNewlines := by
  cases hraw : afterTag? text with
  | some after =>
      obtain ⟨tag, htag, hafter, rfl⟩ := afterTag?_eq_some_iff.mp hraw
      rw [translateNewlines_append_of_not_mem htag.not_mem_return]
      exact afterTag?_eq_some_iff.mpr ⟨tag, htag, endsLine_translate_iff.mpr hafter, rfl⟩
  | none =>
      rw [Option.map_none, Option.eq_none_iff_forall_not_mem]
      intro after htranslated
      obtain ⟨tag, htag, hafter, heq⟩ := afterTag?_eq_some_iff.mp htranslated
      obtain ⟨rest, rfl, rfl⟩ := exists_of_translateNewlines_eq htag.not_mem_feed heq
      rw [afterTag?_eq_some_iff.mpr ⟨tag, htag, endsLine_translate_iff.mp hafter, rfl⟩] at hraw
      cases hraw

theorem afterTag?_cons_translateNewlines {c : Char} {rest : List Char} (hc : c ≠ '\r')
    (h : afterTag? (c :: rest) = none) : afterTag? (c :: translateNewlines rest) = none := by
  rw [← translateNewlines_cons hc, afterTag?_translateNewlines, h]
  rfl

/-! ## The first tag -/

/-- Put a character in front of what stands before a tag. -/
def Cut.push (c : Char) (cut : Cut) : Cut := { cut with before := c :: cut.before }

/-- Cut a text around the first tag that begins a line, given the characters that end lines. -/
def cutWith (endsLine : Char → Bool) (lineStart : Bool) : List Char → Option Cut
  | [] => none
  | c :: rest =>
      match if lineStart then afterTag? (c :: rest) else none with
      | some after => some ⟨[], (c :: rest).take ((c :: rest).length - after.length), after⟩
      | none => (cutWith endsLine (endsLine c) rest).map (Cut.push c)

theorem cutFrom_eq_cutWith (lineStart : Bool) (text : List Char) :
    cutFrom lineStart text = cutWith (· == '\n') lineStart text := by
  induction text generalizing lineStart with
  | nil => rfl
  | cons c rest ih =>
      rw [cutFrom, cutWith, ih]
      rfl

/-- Cut a text around its first tag, where a return ends a line as well. -/
def looseCut? (text : List Char) : Option Cut := cutWith isBreak true text

section CutWith

variable {endsLine : Char → Bool} {lineStart : Bool} {tag after text : List Char} {c : Char}
  {cut : Cut}

theorem cutWith_of_tag (htag : IsTagLine tag) (hafter : EndsLine after) :
    cutWith endsLine true (tag ++ after) = some ⟨[], tag, after⟩ := by
  have hcut : afterTag? (tag ++ after) = some after :=
    afterTag?_eq_some_iff.mpr ⟨tag, htag, hafter, rfl⟩
  obtain ⟨c, rest, hrest⟩ := List.exists_cons_of_ne_nil
    (List.append_ne_nil_of_left_ne_nil htag.ne_nil after)
  rw [hrest] at hcut ⊢
  rw [cutWith, if_pos rfl, hcut]
  have htake : (c :: rest).take ((c :: rest).length - after.length) = tag := by
    rw [← hrest, List.length_append, Nat.add_sub_cancel, List.take_left']
    rfl
  dsimp only
  rw [htake]

theorem cutWith_cons (h : lineStart = true → afterTag? (c :: text) = none) :
    cutWith endsLine lineStart (c :: text) =
      (cutWith endsLine (endsLine c) text).map (Cut.push c) := by
  rw [cutWith]
  cases lineStart with
  | false => rfl
  | true => rw [if_pos rfl, h rfl]

theorem afterTag?_of_break (hc : isBreak c = true) (rest : List Char) :
    afterTag? (c :: rest) = none := by
  rw [Option.eq_none_iff_forall_not_mem]
  intro after hafter
  obtain ⟨tag, htag, -, heq⟩ := afterTag?_eq_some_iff.mp hafter
  obtain ⟨d, tail, rfl⟩ := List.exists_cons_of_ne_nil htag.ne_nil
  obtain ⟨rfl, -⟩ := List.cons.inj heq
  rw [htag.isBreak _ List.mem_cons_self] at hc
  cases hc

theorem cutWith_break (hc : isBreak c = true) (hends : endsLine c = true) :
    cutWith endsLine lineStart (c :: text) = (cutWith endsLine true text).map (Cut.push c) := by
  rw [cutWith_cons fun _ => afterTag?_of_break hc text, hends]

/-- A text is a tag line with what follows, or no tag begins it. -/
theorem tag_cases (text : List Char) :
    (∃ tag after, IsTagLine tag ∧ EndsLine after ∧ text = tag ++ after) ∨ afterTag? text = none := by
  cases h : afterTag? text with
  | none => exact .inr rfl
  | some after =>
      obtain ⟨tag, htag, hafter, heq⟩ := afterTag?_eq_some_iff.mp h
      exact .inl ⟨tag, after, htag, hafter, heq⟩

/-- A tag begins the text, or there is none where one may begin. -/
theorem start_cases (lineStart : Bool) (text : List Char) :
    (lineStart = true ∧ ∃ tag after, IsTagLine tag ∧ EndsLine after ∧ text = tag ++ after) ∨
      (lineStart = true → afterTag? text = none) := by
  cases lineStart with
  | false => exact .inr fun hstart => nomatch hstart
  | true =>
      rcases tag_cases text with htag | hnone
      · exact .inl ⟨rfl, htag⟩
      · exact .inr fun _ => hnone

/-- The parts of a cut are those of the text, with a tag in the middle. -/
theorem cutWith_eq_some (h : cutWith endsLine lineStart text = some cut) :
    IsTagLine cut.tag ∧ EndsLine cut.after ∧ text = cut.before ++ (cut.tag ++ cut.after) := by
  induction text generalizing lineStart cut with
  | nil => cases h
  | cons c rest ih =>
      rcases start_cases lineStart (c :: rest) with ⟨rfl, tag, after, htag, hafter, heq⟩ | hnone
      · rw [heq, cutWith_of_tag htag hafter] at h
        cases h
        exact ⟨htag, hafter, heq⟩
      · rw [cutWith_cons hnone] at h
        obtain ⟨inner, hinner, rfl⟩ := Option.map_eq_some_iff.mp h
        obtain ⟨htag, hafter, heq⟩ := ih hinner
        exact ⟨htag, hafter, congrArg (c :: ·) heq⟩

end CutWith

/-- A cut of a text with its line breaks translated. -/
def Cut.translate (cut : Cut) : Cut :=
  ⟨translateNewlines cut.before, cut.tag, translateNewlines cut.after⟩

theorem isBreak_eq {c : Char} (hc : c ≠ '\r') : isBreak c = (c == '\n') := by
  simp [isBreak, hc]

/-- In the translated text the first tag is the one that comes first when a return ends a line. -/
theorem cutWith_translateNewlines (lineStart : Bool) (text : List Char) :
    cutWith (· == '\n') lineStart (translateNewlines text) =
      (cutWith isBreak lineStart text).map Cut.translate := by
  induction text using translateNewlines.induct generalizing lineStart with
  | case1 => rfl
  | case2 rest ih =>
      rw [translateNewlines, cutWith_break rfl rfl, cutWith_break rfl rfl, cutWith_break rfl rfl,
        ih true, Option.map_map, Option.map_map, Option.map_map]
      rfl
  | case3 rest hne ih =>
      have hhead := head?_ne_feed hne
      rw [translateNewlines_return hhead, cutWith_break rfl rfl, cutWith_break rfl rfl, ih true,
        Option.map_map, Option.map_map]
      refine Option.map_congr fun cut hcut => ?_
      obtain ⟨htag, -, heq⟩ := cutWith_eq_some hcut
      have hbefore : cut.before.head? ≠ some '\n' := by
        intro hbefore
        rw [heq] at hhead
        exact hhead (by simp [List.head?_append, hbefore])
      simp only [Function.comp_apply, Cut.translate, Cut.push]
      rw [translateNewlines_return hbefore]
  | case4 c rest hpair hc ih =>
      rcases start_cases lineStart (c :: rest) with ⟨rfl, tag, after, htag, hafter, heq⟩ | hnone
      · rw [heq, translateNewlines_append_of_not_mem htag.not_mem_return,
          cutWith_of_tag htag (endsLine_translate_iff.mpr hafter), cutWith_of_tag htag hafter]
        rfl
      · have htranslated : lineStart = true → afterTag? (c :: translateNewlines rest) = none :=
          fun hstart => afterTag?_cons_translateNewlines hc (hnone hstart)
        rw [translateNewlines_cons hc, cutWith_cons htranslated, cutWith_cons hnone, isBreak_eq hc,
          ih, Option.map_map, Option.map_map]
        refine Option.map_congr fun cut _ => ?_
        simp only [Function.comp_apply, Cut.translate, Cut.push]
        rw [translateNewlines_cons hc]

/-- The more characters end lines, the more tags begin one. -/
theorem cutWith_isSome_mono {few more : Char → Bool} {strict lenient : Bool} {text : List Char}
    (hends : ∀ c, few c = true → more c = true) (hstart : strict = true → lenient = true)
    (h : (cutWith few strict text).isSome) : (cutWith more lenient text).isSome := by
  induction text generalizing strict lenient with
  | nil => cases h
  | cons c rest ih =>
      rcases start_cases lenient (c :: rest) with ⟨rfl, tag, after, htag, hafter, heq⟩ | hnone
      · rw [heq, cutWith_of_tag htag hafter]
        rfl
      · rw [cutWith_cons fun hstrict => hnone (hstart hstrict), Option.isSome_map] at h
        rw [cutWith_cons hnone, Option.isSome_map]
        exact ih (hends c) h

/-- The translated text has a tag exactly if the text has one when a return ends a line. -/
theorem isSome_find?_translateNewlines (text : List Char) :
    (find? (translateNewlines text)).isSome ↔ (looseCut? text).isSome := by
  unfold find? cut? looseCut?
  rw [Option.isSome_map, cutFrom_eq_cutWith, cutWith_translateNewlines, Option.isSome_map]

/-- A tag that is stripped is read as well. -/
theorem isSome_looseCut? {text : List Char} (h : (cut? text).isSome) : (looseCut? text).isSome := by
  unfold cut? at h
  rw [cutFrom_eq_cutWith] at h
  exact cutWith_isSome_mono (by simp [isBreak]) id h

/-- A text whose translated form has no tag has nothing to strip. -/
theorem strip_of_translated {text : List Char} (h : find? (translateNewlines text) = none) :
    strip text = text := by
  have hloose : ¬ (looseCut? text).isSome := by
    rw [← isSome_find?_translateNewlines, h]
    simp
  unfold strip
  cases hcut : cut? text with
  | none => rfl
  | some cut => exact absurd (isSome_looseCut? (Option.isSome_iff_exists.mpr ⟨cut, hcut⟩)) hloose

/-- A text that begins with a tag has one, translated or not. -/
theorem find?_translated_of_start {front : List Char} (h : IsStart front) (rest : List Char) :
    (find? (translateNewlines (front ++ rest))).isSome := by
  have hreturn : '\r' ∉ front := fun hmem => absurd (h.isBreak _ hmem) (by decide)
  have hmarker : afterMarker? (front ++ translateNewlines rest) = some (translateNewlines rest) :=
    afterMarker?_eq_some_iff.mpr ⟨front, h, rfl⟩
  rw [translateNewlines_append_of_not_mem hreturn]
  unfold find? cut?
  rw [Option.isSome_map, cutFrom_eq_cutWith]
  rcases tag_cases (front ++ translateNewlines rest) with ⟨tag, after, htag, hafter, heq⟩ | hnone
  · rw [heq, cutWith_of_tag htag hafter]
    rfl
  · unfold afterTag? at hnone
    rw [hmarker] at hnone
    cases hnone

/-- A text with a tag holds the marker, translated or not. -/
theorem marker_isInfix {text : List Char} (h : (find? (translateNewlines text)).isSome) :
    marker.toList <:+: text := by
  obtain ⟨cut, hcut⟩ := Option.isSome_iff_exists.mp ((isSome_find?_translateNewlines text).mp h)
  obtain ⟨⟨start, label, hstart, -, htag⟩, -, htext⟩ := cutWith_eq_some hcut
  obtain ⟨indent, comment, gap, -, -, -, rfl⟩ := hstart
  refine ⟨cut.before ++ (indent ++ (comment ++ gap)), label ++ cut.after, ?_⟩
  rw [htext, htag]
  simp only [List.append_assoc]

end SourceAtlas.Tag
