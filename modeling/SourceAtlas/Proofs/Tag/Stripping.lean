import SourceAtlas.Proofs.Tag.Reading

/-!
# Tags that are read and tags that are stripped

A tag is read in a text with translated line breaks. It is stripped from the text as it stands, where
it has to begin after a line feed. The two agree unless a return without line feed stands in front of
a tag or behind it.
-/

namespace SourceAtlas.Tag

open Text

/-! ## Line breaks behind a tag -/

/-- A line feed, maybe with a return in front of it. -/
def IsFeed (feed : List Char) : Prop := feed = ['\n'] ∨ feed = ['\r', '\n']

/-- The text begins with a return that has no line feed behind it. -/
def StartsWithReturn (text : List Char) : Prop :=
  ∃ rest, rest.head? ≠ some '\n' ∧ text = '\r' :: rest

theorem EndsLine.cases {after : List Char} (h : EndsLine after) :
    after = [] ∨ (∃ feed rest, IsFeed feed ∧ after = feed ++ rest) ∨ StartsWithReturn after := by
  cases after with
  | nil => exact .inl rfl
  | cons c rest =>
      have hc : isBreak c = true := h c rfl
      simp only [isBreak, Bool.or_eq_true, beq_iff_eq] at hc
      rcases hc with rfl | rfl
      · exact .inr (.inl ⟨['\n'], rest, .inl rfl, rfl⟩)
      · by_cases hhead : rest.head? = some '\n'
        · cases rest with
          | nil => cases hhead
          | cons d behind =>
              cases hhead
              exact .inr (.inl ⟨['\r', '\n'], behind, .inr rfl, rfl⟩)
        · exact .inr (.inr ⟨rest, hhead, rfl⟩)

theorem IsFeed.endsLine_append {feed : List Char} (h : IsFeed feed) (rest : List Char) :
    EndsLine (feed ++ rest) := by
  rcases h with rfl | rfl
  · rintro c ⟨⟩
    rfl
  · rintro c ⟨⟩
    rfl

theorem IsFeed.translateNewlines_append {feed : List Char} (h : IsFeed feed) (rest : List Char) :
    translateNewlines (feed ++ rest) = '\n' :: translateNewlines rest := by
  rcases h with rfl | rfl <;> rfl

theorem IsFeed.dropBreak_append {feed : List Char} (h : IsFeed feed) (rest : List Char) :
    dropBreak (feed ++ rest) = rest := by
  rcases h with rfl | rfl <;> rfl

theorem dropBreak_return {rest : List Char} (h : rest.head? ≠ some '\n') :
    dropBreak ('\r' :: rest) = '\r' :: rest := by
  cases rest with
  | nil => rfl
  | cons c rest =>
      unfold dropBreak
      split
      · next heq =>
          cases heq
          exact absurd rfl h
      · next heq => cases heq
      · rfl

/-- The line break behind a tag is taken out before or after translation alike unless it is a lone
return. -/
theorem translateNewlines_dropBreak_iff {after : List Char} (h : EndsLine after) :
    translateNewlines (dropBreak after) = dropBreak (translateNewlines after) ↔
      ¬ StartsWithReturn after := by
  rcases h.cases with rfl | ⟨feed, rest, hfeed, rfl⟩ | hreturn
  · refine iff_of_true rfl ?_
    rintro ⟨rest, -, heq⟩
    cases heq
  · rw [hfeed.dropBreak_append, hfeed.translateNewlines_append]
    refine iff_of_true rfl ?_
    rintro ⟨behind, hhead, heq⟩
    rcases hfeed with rfl | rfl
    · cases heq
    · cases heq
      exact hhead rfl
  · refine iff_of_false (fun heq => ?_) (not_not_intro hreturn)
    obtain ⟨rest, hhead, rfl⟩ := hreturn
    rw [dropBreak_return hhead, translateNewlines_return hhead] at heq
    have hlength := congrArg List.length heq
    simp [dropBreak] at hlength

theorem translateNewlines_of_endsLine {after : List Char} (h : EndsLine after) (hne : after ≠ []) :
    translateNewlines after = '\n' :: dropBreak (translateNewlines after) := by
  rcases h.cases with rfl | ⟨feed, rest, hfeed, rfl⟩ | ⟨rest, hhead, rfl⟩
  · exact absurd rfl hne
  · rw [hfeed.translateNewlines_append]
    rfl
  · rw [translateNewlines_return hhead]
    rfl

/-! ## Stripping -/

/-- A text without its first tag, which has to begin after a line feed. -/
def stripFrom (lineStart : Bool) (text : List Char) : List Char :=
  match cutWith (· == '\n') lineStart text with
  | some cut => cut.before ++ dropBreak cut.after
  | none => text

theorem strip_eq_stripFrom (text : List Char) : strip text = stripFrom true text := by
  have hcut : cut? text = cutWith (· == '\n') true text := cutFrom_eq_cutWith true text
  unfold strip stripFrom
  cases hfound : cut? text with
  | none => rw [← hcut, hfound]
  | some cut => rw [← hcut, hfound]

section StripFrom

variable {tag after text : List Char} {lineStart : Bool} {c : Char}

theorem stripFrom_of_tag (htag : IsTagLine tag) (hafter : EndsLine after) :
    stripFrom true (tag ++ after) = dropBreak after := by
  unfold stripFrom
  rw [cutWith_of_tag htag hafter]
  rfl

theorem stripFrom_cons (h : lineStart = true → afterTag? (c :: text) = none) :
    stripFrom lineStart (c :: text) = c :: stripFrom (c == '\n') text := by
  unfold stripFrom
  rw [cutWith_cons h]
  cases cutWith (· == '\n') (c == '\n') text <;> rfl

theorem stripFrom_false_cons (c : Char) (text : List Char) :
    stripFrom false (c :: text) = c :: stripFrom (c == '\n') text :=
  stripFrom_cons fun hstart => nomatch hstart

theorem stripFrom_break (hc : isBreak c = true) (text : List Char) :
    stripFrom lineStart (c :: text) = c :: stripFrom (c == '\n') text :=
  stripFrom_cons fun _ => afterTag?_of_break hc text

theorem stripFrom_of_no_tag (h : afterTag? text = none) :
    stripFrom true text = stripFrom false text := by
  cases text with
  | nil => rfl
  | cons c text => rw [stripFrom_cons fun _ => h, stripFrom_false_cons]

theorem head?_stripFrom_false (text : List Char) : (stripFrom false text).head? = text.head? := by
  cases text with
  | nil => rfl
  | cons c text => rw [stripFrom_false_cons, List.head?_cons, List.head?_cons]

theorem IsFeed.stripFrom_append {feed : List Char} (h : IsFeed feed) (text : List Char) :
    stripFrom lineStart (feed ++ text) = feed ++ stripFrom true text := by
  rcases h with rfl | rfl
  · exact stripFrom_break rfl text
  · exact (stripFrom_break rfl _).trans (congrArg ('\r' :: ·) (stripFrom_break rfl text))

/-- Within a line no tag begins. -/
theorem stripFrom_false_append {front : List Char} (hfront : '\n' ∉ front) (back : List Char) :
    stripFrom false (front ++ back) = front ++ stripFrom false back := by
  induction front with
  | nil => rfl
  | cons c front ih =>
      have hc : (c == '\n') = false := beq_false_of_ne fun hsame => hfront (hsame ▸ List.mem_cons_self)
      rw [List.cons_append, stripFrom_false_cons, hc,
        ih fun hmem => hfront (List.mem_cons_of_mem _ hmem), List.cons_append]

/-- A lone return in front of a text is translated, whether or not the text is stripped. -/
theorem translateNewlines_stripFrom_return {rest : List Char} (h : rest.head? ≠ some '\n') :
    translateNewlines (stripFrom lineStart ('\r' :: rest)) =
      '\n' :: translateNewlines (stripFrom false rest) := by
  rw [stripFrom_break rfl]
  exact translateNewlines_return (by rwa [← head?_stripFrom_false] at h)

end StripFrom

/-! ## Repeated tags -/

/-- Behind a tag the same tag follows line by line, until two of its lines end in a line feed. -/
inductive Repeats (tag : List Char) : List Char → Prop
  | last {first second : List Char} (rest : List Char) (hfirst : IsFeed first)
      (hsecond : IsFeed second) : Repeats tag (first ++ (tag ++ (second ++ rest)))
  | more {after : List Char} (h : Repeats tag after) : Repeats tag ('\r' :: (tag ++ after))

section Repeats

variable {tag : List Char} (htag : IsTagLine tag)

include htag

theorem head?_tag_append (back : List Char) : (tag ++ back).head? ≠ some '\n' := by
  obtain ⟨c, rest, rfl⟩ := List.exists_cons_of_ne_nil htag.ne_nil
  intro hhead
  cases hhead
  exact htag.not_mem_feed List.mem_cons_self

omit htag in
theorem Repeats.endsLine {after : List Char} (h : Repeats tag after) : EndsLine after := by
  cases h with
  | last rest hfirst hsecond => exact hfirst.endsLine_append _
  | more h =>
      rintro c ⟨⟩
      rfl

omit htag in
theorem Repeats.ne_nil {after : List Char} (h : Repeats tag after) : after ≠ [] := by
  cases h with
  | last rest hfirst hsecond =>
      rcases hfirst with rfl | rfl
      · exact List.cons_ne_nil _ _
      · exact List.cons_ne_nil _ _
  | more h => exact List.cons_ne_nil _ _

/-- Of the lines of a repeated tag it makes no difference which one is stripped. -/
theorem Repeats.strips_alike {after : List Char} (h : Repeats tag after) :
    tag ++ translateNewlines (stripFrom false after) = dropBreak (translateNewlines after) := by
  have htranslate : ∀ back, translateNewlines (tag ++ back) = tag ++ translateNewlines back :=
    translateNewlines_append_of_not_mem htag.not_mem_return
  induction h with
  | @last first second rest hfirst hsecond =>
      have hstrip : stripFrom true (tag ++ (second ++ rest)) = rest := by
        rw [stripFrom_of_tag htag (hsecond.endsLine_append rest), hsecond.dropBreak_append]
      rw [hfirst.stripFrom_append, hstrip, hfirst.translateNewlines_append,
        hfirst.translateNewlines_append, htranslate, hsecond.translateNewlines_append]
      rfl
  | @more after h ih =>
      have hhead := head?_tag_append htag after
      have hafter := translateNewlines_of_endsLine h.endsLine h.ne_nil
      rw [translateNewlines_stripFrom_return hhead, stripFrom_false_append htag.not_mem_feed,
        htranslate, ih, translateNewlines_return hhead, htranslate, ← hafter]
      rfl

/-- A tag that is stripped in one of the texts only leaves the same text if it is repeated. -/
theorem repeats_of_strips_alike {after : List Char} (hafter : EndsLine after)
    (h : tag ++ translateNewlines (stripFrom false after) =
      dropBreak (translateNewlines after)) : Repeats tag after := by
  -- One tag after the other is taken off the text, so the induction is on its length.
  induction hlength : after.length using Nat.strongRecOn generalizing after with
  | ind length ih =>
      rcases hafter.cases with rfl | ⟨first, rest, hfirst, rfl⟩ | ⟨rest, hhead, rfl⟩
      · exact absurd (List.append_eq_nil_iff.mp h).1 htag.ne_nil
      · rw [hfirst.stripFrom_append, hfirst.translateNewlines_append,
          hfirst.translateNewlines_append] at h
        obtain ⟨behind, rfl, hbehind⟩ :=
          exists_of_translateNewlines_eq htag.not_mem_feed (Eq.symm h)
        have hends : EndsLine behind := endsLine_of_translated hbehind
        rw [stripFrom_of_tag htag hends] at hbehind
        -- The line break behind the second tag is taken out, so it is one that stripping knows.
        rcases hends.cases with rfl | ⟨second, rest, hsecond, rfl⟩ | ⟨rest, hhead, rfl⟩
        · cases hbehind
        · exact .last rest hfirst hsecond
        · rw [dropBreak_return hhead] at hbehind
          have hsame := congrArg List.length hbehind
          rw [List.length_cons] at hsame
          omega
      · rw [translateNewlines_stripFrom_return hhead, translateNewlines_return hhead] at h
        obtain ⟨behind, rfl, hbehind⟩ :=
          exists_of_translateNewlines_eq htag.not_mem_feed (Eq.symm h)
        have hends : EndsLine behind := endsLine_of_translated hbehind
        rw [stripFrom_false_append htag.not_mem_feed,
          translateNewlines_append_of_not_mem htag.not_mem_return] at hbehind
        refine .more (ih behind.length ?_ hends ?_ rfl)
        · rw [← hlength, List.length_cons, List.length_append]
          omega
        · rw [hbehind]
          rfl

end Repeats

/-! ## Agreement -/

/-- The tag can be stripped before or after translation. -/
structure StripsAlike (cut : Cut) : Prop where
  repeats : cut.before.getLast? = some '\r' → Repeats cut.tag cut.after
  break_behind : cut.before.getLast? ≠ some '\r' → ¬ StartsWithReturn cut.after

theorem stripsAlike_push {c : Char} {cut : Cut} (h : c ≠ '\r' ∨ cut.before ≠ []) :
    StripsAlike (cut.push c) ↔ StripsAlike cut := by
  have hlast : (cut.push c).before.getLast? = some '\r' ↔ cut.before.getLast? = some '\r' := by
    unfold Cut.push
    cases hbefore : cut.before with
    | nil =>
        have hc := h.resolve_right (not_not_intro hbefore)
        simp [hc]
    | cons d before => rw [List.getLast?_cons_cons]
  exact ⟨fun ⟨h1, h2⟩ => ⟨fun h => h1 (hlast.mpr h), fun h => h2 fun hl => h (hlast.mp hl)⟩,
    fun ⟨h1, h2⟩ => ⟨fun h => h1 (hlast.mp h), fun h => h2 fun hl => h (hlast.mpr hl)⟩⟩

theorem forall_stripsAlike_push {c : Char} {found : Option Cut}
    (h : ∀ cut, found = some cut → c ≠ '\r' ∨ cut.before ≠ []) :
    (∀ cut, found.map (Cut.push c) = some cut → StripsAlike cut) ↔
      ∀ cut, found = some cut → StripsAlike cut := by
  constructor
  · intro hall cut hcut
    exact (stripsAlike_push (h cut hcut)).mp (hall _ (by rw [hcut, Option.map_some]))
  · intro hall cut hcut
    obtain ⟨inner, hinner, rfl⟩ := Option.map_eq_some_iff.mp hcut
    exact (stripsAlike_push (h inner hinner)).mpr (hall inner hinner)

/-- Behind a lone return a tag begins only in the translated text. -/
theorem strips_behind_return_iff {tag after : List Char} (htag : IsTagLine tag)
    (hafter : EndsLine after) :
    translateNewlines (stripFrom false (tag ++ after)) =
        stripFrom true (translateNewlines (tag ++ after)) ↔
      StripsAlike ⟨['\r'], tag, after⟩ := by
  rw [stripFrom_false_append htag.not_mem_feed,
    translateNewlines_append_of_not_mem htag.not_mem_return,
    translateNewlines_append_of_not_mem htag.not_mem_return,
    stripFrom_of_tag htag (endsLine_translate_iff.mpr hafter)]
  constructor
  · intro heq
    exact ⟨fun _ => repeats_of_strips_alike htag hafter heq, fun hlast => absurd rfl hlast⟩
  · intro halike
    exact (halike.repeats rfl).strips_alike htag

/-- Where a tag begins in both texts the line break behind it matters alone. -/
theorem strips_of_tag_iff {tag after : List Char} (htag : IsTagLine tag) (hafter : EndsLine after) :
    translateNewlines (stripFrom true (tag ++ after)) =
        stripFrom true (translateNewlines (tag ++ after)) ↔
      StripsAlike ⟨[], tag, after⟩ := by
  rw [stripFrom_of_tag htag hafter, translateNewlines_append_of_not_mem htag.not_mem_return,
    stripFrom_of_tag htag (endsLine_translate_iff.mpr hafter),
    translateNewlines_dropBreak_iff hafter]
  exact ⟨fun hbreak => ⟨nofun, fun _ => hbreak⟩, fun halike => halike.break_behind nofun⟩

/-- Stripping a text and translating it can be done in any order exactly if this is so around the
tag that comes first when a return ends a line. -/
theorem translateNewlines_stripFrom_iff (lineStart : Bool) (text : List Char) :
    translateNewlines (stripFrom lineStart text) = stripFrom lineStart (translateNewlines text) ↔
      ∀ cut, cutWith isBreak lineStart text = some cut → StripsAlike cut := by
  induction text using translateNewlines.induct generalizing lineStart with
  | case1 => exact iff_of_true rfl fun _ hcut => by cases hcut
  | case2 rest ih =>
      have hfeed : IsFeed ['\r', '\n'] := .inr rfl
      have hstrip : stripFrom lineStart ('\r' :: '\n' :: rest) = '\r' :: '\n' :: stripFrom true rest :=
        hfeed.stripFrom_append rest
      rw [hstrip, translateNewlines, translateNewlines, stripFrom_break rfl,
        List.cons.injEq, and_iff_right rfl, cutWith_break rfl rfl, cutWith_break rfl rfl,
        forall_stripsAlike_push, forall_stripsAlike_push]
      · exact ih true
      · exact fun _ _ => .inl (by decide)
      · intro cut hcut
        obtain ⟨inner, -, rfl⟩ := Option.map_eq_some_iff.mp hcut
        exact .inr (List.cons_ne_nil _ _)
  | case3 rest hne ih =>
      have hhead := head?_ne_feed hne
      rw [translateNewlines_stripFrom_return hhead, translateNewlines_return hhead,
        stripFrom_break rfl, List.cons.injEq, and_iff_right rfl, cutWith_break rfl rfl]
      rcases tag_cases rest with ⟨tag, after, htag, hafter, rfl⟩ | hnone
      · rw [cutWith_of_tag htag hafter]
        simp only [Option.map_some, Option.some.injEq, forall_eq']
        exact strips_behind_return_iff htag hafter
      · rw [forall_stripsAlike_push, ← ih true, stripFrom_of_no_tag hnone]
        · rfl
        · intro cut hcut
          refine .inr fun hbefore => ?_
          obtain ⟨htag, hafter, heq⟩ := cutWith_eq_some hcut
          rw [hbefore, List.nil_append] at heq
          rw [afterTag?_eq_some_iff.mpr ⟨_, htag, hafter, heq⟩] at hnone
          cases hnone
  | case4 c rest hpair hc ih =>
      rcases start_cases lineStart (c :: rest) with ⟨rfl, tag, after, htag, hafter, heq⟩ | hnone
      · rw [heq, cutWith_of_tag htag hafter]
        simp only [Option.some.injEq, forall_eq']
        exact strips_of_tag_iff htag hafter
      · have htranslated : lineStart = true → afterTag? (c :: translateNewlines rest) = none :=
          fun hstart => afterTag?_cons_translateNewlines hc (hnone hstart)
        rw [stripFrom_cons hnone, translateNewlines_cons hc, translateNewlines_cons hc,
          stripFrom_cons htranslated, List.cons.injEq, and_iff_right rfl, cutWith_cons hnone,
          isBreak_eq hc, forall_stripsAlike_push fun _ _ => .inl hc]
        exact ih _

/-! ## Texts that a tag is taken out of -/

theorem length_dropBreak_le (text : List Char) : (dropBreak text).length ≤ text.length := by
  unfold dropBreak
  split
  · simp only [List.length_cons]
    omega
  · simp only [List.length_cons]
    omega
  · exact Nat.le_refl _

/-- Stripping changes a text exactly if there is a tag in it. -/
theorem strip_ne_iff (text : List Char) : strip text ≠ text ↔ (cut? text).isSome := by
  have hcut : cut? text = cutWith (· == '\n') true text := cutFrom_eq_cutWith true text
  unfold strip
  cases hfound : cut? text with
  | none => simp
  | some cut =>
      rw [hcut] at hfound
      obtain ⟨htag, -, heq⟩ := cutWith_eq_some hfound
      refine iff_of_true (fun hsame => ?_) rfl
      dsimp only at hsame
      have hlength := congrArg List.length (hsame.trans heq)
      have htaglength := List.length_pos_iff.mpr htag.ne_nil
      have hbreak := length_dropBreak_le cut.after
      simp only [List.length_append] at hlength
      omega

/-- A tag is stripped exactly if one is read, unless all tags that are read begin after a return
without line feed. Stripping and translating can be done in any order exactly if this is so around
the first tag that is read. -/
theorem strip_agrees_iff (text : List Char) :
    ((strip text ≠ text ↔ (find? (translateNewlines text)).isSome) ↔
      ((looseCut? text).isSome → (cut? text).isSome)) ∧
    (translateNewlines (strip text) = strip (translateNewlines text) ↔
      ∀ cut, looseCut? text = some cut → StripsAlike cut) := by
  constructor
  · rw [strip_ne_iff, isSome_find?_translateNewlines]
    exact ⟨fun h => h.mpr, fun h => ⟨isSome_looseCut?, h⟩⟩
  · rw [strip_eq_stripFrom, strip_eq_stripFrom]
    exact translateNewlines_stripFrom_iff true text

/-- Texts in which every return has a line feed behind it are read and stripped alike. -/
theorem strips_as_read {text : List Char}
    (h : ∀ front back, text = front ++ '\r' :: back → back.head? = some '\n') :
    (strip text ≠ text ↔ (find? (translateNewlines text)).isSome) ∧
      translateNewlines (strip text) = strip (translateNewlines text) := by
  have halike : translateNewlines (strip text) = strip (translateNewlines text) := by
    rw [strip_eq_stripFrom, strip_eq_stripFrom, translateNewlines_stripFrom_iff]
    intro cut hcut
    obtain ⟨htag, -, heq⟩ := cutWith_eq_some hcut
    constructor
    · intro hlast
      obtain ⟨front, hfront⟩ := List.getLast?_eq_some_iff.mp hlast
      rw [hfront, List.append_assoc, List.singleton_append] at heq
      exact absurd (h _ _ heq) (head?_tag_append htag _)
    · rintro - ⟨rest, hhead, hrest⟩
      rw [hrest, ← List.append_assoc] at heq
      exact hhead (h _ _ heq)
  refine ⟨⟨fun hchange => ?_, fun hfound hsame => ?_⟩, halike⟩
  · rw [isSome_find?_translateNewlines]
    exact isSome_looseCut? ((strip_ne_iff text).mp hchange)
  · rw [find?, Option.isSome_map, ← strip_ne_iff] at hfound
    rw [hsame] at halike
    exact hfound halike.symm

/-- A tag between two returns is read, but it is not stripped. -/
example : strip "a\r// @atlas-entrypoint: b\rc".toList = "a\r// @atlas-entrypoint: b\rc".toList ∧
    find? (translateNewlines "a\r// @atlas-entrypoint: b\rc".toList) =
      some "// @atlas-entrypoint: b".toList := by decide

end SourceAtlas.Tag
