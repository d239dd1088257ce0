import SourceAtlas.Proofs.Tag.Stripping

/-!
# The first tag of a text

A tag of a text begins one of its lines and runs to the next line break. Cutting finds the first of
them, and stripping takes out its line: the tag, and the line feed behind it if there is one.
-/

namespace SourceAtlas.Tag

variable {lineStart : Bool} {text : List Char} {cut other : Cut}

/-- A line begins behind `before`; `lineStart` tells whether one begins in front of it. -/
def StartsLine (lineStart : Bool) (before : List Char) : Prop :=
  (before = [] ∧ lineStart = true) ∨ before.getLast? = some '\n'

/-- The cut is around a tag of a text whose start begins a line if `lineStart` says so. -/
structure Cut.IsTagFrom (lineStart : Bool) (cut : Cut) (text : List Char) : Prop where
  startsLine : StartsLine lineStart cut.before
  isTagLine : IsTagLine cut.tag
  endsLine : EndsLine cut.after
  text_eq : text = cut.before ++ (cut.tag ++ cut.after)

/-- The cut is around a tag of the text. -/
abbrev Cut.IsTagOf (cut : Cut) (text : List Char) : Prop := cut.IsTagFrom true text

/-- The cut is around the first tag of the text. -/
structure Cut.IsFirstTagOf (cut : Cut) (text : List Char) : Prop extends cut.IsTagOf text where
  first : ∀ other : Cut, other.IsTagOf text → cut.before.length ≤ other.before.length

theorem startsLine_cons {c : Char} {before : List Char} :
    StartsLine lineStart (c :: before) ↔ StartsLine (c == '\n') before := by
  unfold StartsLine
  cases before with
  | nil => simp
  | cons d before => simp [List.getLast?_cons_cons]

theorem Cut.isTagFrom_push {c : Char} :
    (cut.push c).IsTagFrom lineStart (c :: text) ↔ cut.IsTagFrom (c == '\n') text := by
  constructor
  · rintro ⟨hstart, htag, hafter, heq⟩
    exact ⟨startsLine_cons.mp hstart, htag, hafter, (List.cons.inj heq).2⟩
  · rintro ⟨hstart, htag, hafter, heq⟩
    exact ⟨startsLine_cons.mpr hstart, htag, hafter, congrArg (c :: ·) heq⟩

/-- A tag stands at the start of the text, or it is one of the text behind the first character. -/
theorem Cut.IsTagFrom.cases {c : Char} (h : cut.IsTagFrom lineStart (c :: text)) :
    (lineStart = true ∧ cut.before = [] ∧ afterTag? (c :: text) = some cut.after) ∨
      ∃ inner : Cut, inner.IsTagFrom (c == '\n') text ∧ cut = inner.push c := by
  obtain ⟨before, tag, after⟩ := cut
  cases before with
  | nil =>
      obtain ⟨-, hstart⟩ := h.startsLine.resolve_right (by simp)
      exact .inl ⟨hstart, rfl, afterTag?_eq_some_iff.mpr ⟨tag, h.isTagLine, h.endsLine, h.text_eq⟩⟩
  | cons d before =>
      obtain ⟨rfl, -⟩ := List.cons.inj h.text_eq
      exact .inr ⟨⟨before, tag, after⟩, Cut.isTagFrom_push.mp h, rfl⟩

/-! ## Cutting -/

/-- What is cut out is a tag of the text. -/
theorem isTagFrom_of_cutWith (h : cutWith (· == '\n') lineStart text = some cut) :
    cut.IsTagFrom lineStart text := by
  induction text generalizing lineStart cut with
  | nil => cases h
  | cons c rest ih =>
      rcases start_cases lineStart (c :: rest) with ⟨rfl, tag, after, htag, hafter, heq⟩ | hnone
      · rw [heq, cutWith_of_tag htag hafter] at h
        cases h
        exact ⟨.inl ⟨rfl, rfl⟩, htag, hafter, heq⟩
      · rw [cutWith_cons hnone] at h
        obtain ⟨inner, hinner, rfl⟩ := Option.map_eq_some_iff.mp h
        exact Cut.isTagFrom_push.mpr (ih hinner)

/-- Wherever a tag stands in the text, a cut is made there or before it. -/
theorem exists_cutWith (h : other.IsTagFrom lineStart text) :
    ∃ cut, cutWith (· == '\n') lineStart text = some cut ∧
      cut.before.length ≤ other.before.length := by
  induction text generalizing lineStart other with
  | nil =>
      have hempty := (List.append_eq_nil_iff.mp h.text_eq.symm).2
      exact absurd (List.append_eq_nil_iff.mp hempty).1 h.isTagLine.ne_nil
  | cons c rest ih =>
      rcases start_cases lineStart (c :: rest) with ⟨rfl, tag, after, htag, hafter, heq⟩ | hnone
      · rw [heq, cutWith_of_tag htag hafter]
        exact ⟨_, rfl, Nat.zero_le _⟩
      · rw [cutWith_cons hnone]
        rcases h.cases with ⟨hstart, -, htag⟩ | ⟨inner, hinner, rfl⟩
        · rw [hnone hstart] at htag
          cases htag
        · obtain ⟨cut, hcut, hle⟩ := ih hinner
          exact ⟨cut.push c, by rw [hcut, Option.map_some], Nat.succ_le_succ hle⟩

theorem cut?_eq_cutWith (text : List Char) : cut? text = cutWith (· == '\n') true text :=
  cutFrom_eq_cutWith true text

theorem find?_of_tag {tag after : List Char} (htag : IsTagLine tag) (hafter : EndsLine after) :
    find? (tag ++ after) = some tag := by
  unfold find?
  rw [cut?_eq_cutWith, cutWith_of_tag htag hafter]
  rfl

/-- Cutting finds the first tag. -/
theorem isFirstTagOf_of_cut? (h : cut? text = some cut) : cut.IsFirstTagOf text := by
  rw [cut?_eq_cutWith] at h
  refine ⟨isTagFrom_of_cutWith h, fun other hother => ?_⟩
  obtain ⟨found, hfound, hle⟩ := exists_cutWith hother
  rw [h] at hfound
  cases hfound
  exact hle

theorem cut?_eq_none_iff : cut? text = none ↔ ∀ cut : Cut, ¬ cut.IsTagOf text := by
  rw [cut?_eq_cutWith]
  constructor
  · intro hnone cut htag
    obtain ⟨found, hfound, -⟩ := exists_cutWith htag
    rw [hnone] at hfound
    cases hfound
  · intro hnone
    rw [Option.eq_none_iff_forall_ne_some]
    exact fun cut hcut => hnone cut (isTagFrom_of_cutWith hcut)

/-! ## Stripping -/

/-- One text is the other one without the line of its first tag: the tag, and the line feed behind
it if there is one. -/
inductive LosesTag (text : List Char) : List Char → Prop
  | untagged (h : ∀ cut : Cut, ¬ cut.IsTagOf text) : LosesTag text text
  | line {cut : Cut} {feed rest : List Char} (hfirst : cut.IsFirstTagOf text) (hfeed : IsFeed feed)
      (hafter : cut.after = feed ++ rest) : LosesTag text (cut.before ++ rest)
  | bare {cut : Cut} (hfirst : cut.IsFirstTagOf text)
      (hafter : ∀ feed rest, IsFeed feed → cut.after ≠ feed ++ rest) :
      LosesTag text (cut.before ++ cut.after)

theorem dropBreak_of_no_feed {after : List Char}
    (h : ∀ feed rest, IsFeed feed → after ≠ feed ++ rest) : dropBreak after = after := by
  unfold dropBreak
  split
  · next rest => exact absurd rfl (h ['\r', '\n'] rest (.inr rfl))
  · next rest => exact absurd rfl (h ['\n'] rest (.inl rfl))
  · rfl

/-- Stripping takes out the line of the first tag. -/
theorem losesTag_strip (text : List Char) : LosesTag text (strip text) := by
  unfold strip
  cases hcut : cut? text with
  | none => exact .untagged (cut?_eq_none_iff.mp hcut)
  | some cut =>
      have hfirst := isFirstTagOf_of_cut? hcut
      dsimp only
      by_cases hfeed : ∃ feed rest, IsFeed feed ∧ cut.after = feed ++ rest
      · obtain ⟨feed, rest, hfeed, hafter⟩ := hfeed
        rw [hafter, hfeed.dropBreak_append]
        exact .line hfirst hfeed hafter
      · have hnone : ∀ feed rest, IsFeed feed → cut.after ≠ feed ++ rest :=
          fun feed rest hf hafter => hfeed ⟨feed, rest, hf, hafter⟩
        rw [dropBreak_of_no_feed hnone]
        exact .bare hfirst hnone

end SourceAtlas.Tag
