import Mathlib.Data.List.Pairwise
import SourceAtlas.Proofs.Tag.First

/-!
# Taking out one tag

All tags of a text in order, each with what stands in front of it and behind it. Stripping takes out
the line of the first one, and the others stay where they are in the rest of the text.
-/

namespace SourceAtlas.Tag

open Text

variable {lineStart : Bool} {text front back tag after : List Char} {cut other : Cut} {c : Char}

/-! ## All tags of a text -/

/-- The tag that begins a text, if the text begins a line. -/
def tagAtStart? (lineStart : Bool) (text : List Char) : Option Cut :=
  if lineStart then
    (afterTag? text).map fun after => ⟨[], text.take (text.length - after.length), after⟩
  else none

/-- The tags of a text in order; `lineStart` tells whether the text begins a line. -/
def cutsFrom (lineStart : Bool) : List Char → List Cut
  | [] => []
  | c :: rest =>
      (tagAtStart? lineStart (c :: rest)).toList ++ (cutsFrom (c == '\n') rest).map (Cut.push c)

/-- The tags of a text in order. -/
def cuts (text : List Char) : List Cut := cutsFrom true text

/-- The cuts are around the tags of a text, each of them once and from the front to the back. -/
structure AreTags (cuts : List Cut) (text : List Char) : Prop where
  mem_iff : ∀ cut, cut ∈ cuts ↔ cut.IsTagOf text
  inOrder : cuts.Pairwise fun cut other => cut.before.length < other.before.length

theorem tagAtStart?_of_tag (htag : IsTagLine tag) (hafter : EndsLine after) :
    tagAtStart? true (tag ++ after) = some ⟨[], tag, after⟩ := by
  have hcut : afterTag? (tag ++ after) = some after :=
    afterTag?_eq_some_iff.mpr ⟨tag, htag, hafter, rfl⟩
  have htake : (tag ++ after).take ((tag ++ after).length - after.length) = tag := by
    rw [List.length_append, Nat.add_sub_cancel, List.take_left']
    rfl
  unfold tagAtStart?
  rw [if_pos rfl, hcut, Option.map_some, htake]

theorem tagAtStart?_of_none (h : lineStart = true → afterTag? text = none) :
    tagAtStart? lineStart text = none := by
  unfold tagAtStart?
  split
  · next hstart => rw [h hstart, Option.map_none]
  · rfl

/-- The tag at the start is the one with nothing in front of it. -/
theorem tagAtStart?_eq_some_iff :
    tagAtStart? lineStart text = some cut ↔ cut.before = [] ∧ cut.IsTagFrom lineStart text := by
  rcases start_cases lineStart text with ⟨rfl, tag, after, htag, hafter, rfl⟩ | hnone
  · rw [tagAtStart?_of_tag htag hafter]
    constructor
    · rintro ⟨⟩
      exact ⟨rfl, .inl ⟨rfl, rfl⟩, htag, hafter, rfl⟩
    · obtain ⟨before, line, behind⟩ := cut
      rintro ⟨hbefore, -, hline, hbehind, heq⟩
      dsimp only at hbefore hline hbehind heq
      subst hbefore
      -- Both run from the start to the first line break.
      have hsame : some (⟨[], tag, after⟩ : Cut) = some ⟨[], line, behind⟩ := by
        rw [← tagAtStart?_of_tag htag hafter, heq, List.nil_append, tagAtStart?_of_tag hline hbehind]
      exact hsame
  · rw [tagAtStart?_of_none hnone]
    refine iff_of_false (by simp) ?_
    rintro ⟨hbefore, hstart, htag, hafter, heq⟩
    rw [hbefore] at hstart heq
    have htrue : lineStart = true := (hstart.resolve_right (by simp)).2
    have hfound := afterTag?_eq_some_iff.mpr ⟨cut.tag, htag, hafter, heq⟩
    rw [hnone htrue] at hfound
    cases hfound

theorem mem_cutsFrom_iff : cut ∈ cutsFrom lineStart text ↔ cut.IsTagFrom lineStart text := by
  induction text generalizing lineStart cut with
  | nil =>
      refine iff_of_false List.not_mem_nil fun h => ?_
      exact h.isTagLine.ne_nil (List.append_eq_nil_iff.mp (List.append_eq_nil_iff.mp h.text_eq.symm).2).1
  | cons c rest ih =>
      rw [cutsFrom, List.mem_append, Option.mem_toList, tagAtStart?_eq_some_iff, List.mem_map]
      constructor
      · rintro (⟨-, htag⟩ | ⟨inner, hinner, rfl⟩)
        · exact htag
        · exact Cut.isTagFrom_push.mpr (ih.mp hinner)
      · intro htag
        rcases htag.cases with ⟨-, hbefore, -⟩ | ⟨inner, hinner, rfl⟩
        · exact .inl ⟨hbefore, htag⟩
        · exact .inr ⟨inner, ih.mpr hinner, rfl⟩

theorem pairwise_cutsFrom (lineStart : Bool) (text : List Char) :
    (cutsFrom lineStart text).Pairwise fun cut other => cut.before.length < other.before.length := by
  induction text generalizing lineStart with
  | nil => exact .nil
  | cons c rest ih =>
      rw [cutsFrom, List.pairwise_append]
      refine ⟨?_, ?_, ?_⟩
      · cases tagAtStart? lineStart (c :: rest) with
        | none => exact .nil
        | some cut => exact List.pairwise_singleton _ cut
      · rw [List.pairwise_map]
        exact (ih _).imp fun hlt => Nat.succ_lt_succ hlt
      · intro first hfirst second hsecond
        obtain ⟨hbefore, -⟩ := tagAtStart?_eq_some_iff.mp (Option.mem_toList.mp hfirst)
        obtain ⟨inner, -, rfl⟩ := List.mem_map.mp hsecond
        rw [hbefore]
        exact Nat.succ_pos _

theorem areTags_cuts (text : List Char) : AreTags (cuts text) text :=
  ⟨fun _ => mem_cutsFrom_iff, pairwise_cutsFrom true text⟩

/-! ## Tags of a text in two parts -/

/-- A cut of a text with another one in front of it. -/
def Cut.behind (front : List Char) (cut : Cut) : Cut := { cut with before := front ++ cut.before }

theorem Cut.push_behind (c : Char) (front : List Char) :
    Cut.push c ∘ Cut.behind front = Cut.behind (c :: front) := rfl

theorem Cut.behind_behind (first second : List Char) :
    Cut.behind first ∘ Cut.behind second = Cut.behind (first ++ second) := by
  funext cut
  simp [Cut.behind]

theorem cutsFrom_cons (h : lineStart = true → afterTag? (c :: text) = none) :
    cutsFrom lineStart (c :: text) = (cutsFrom (c == '\n') text).map (Cut.push c) := by
  rw [cutsFrom, tagAtStart?_of_none h]
  rfl

/-- Within a line no tag begins. -/
theorem cutsFrom_false_append (hfront : '\n' ∉ front) (back : List Char) :
    cutsFrom false (front ++ back) = (cutsFrom false back).map (Cut.behind front) := by
  induction front with
  | nil => exact (List.map_id _).symm
  | cons c front ih =>
      have hc : (c == '\n') = false := beq_false_of_ne fun hsame => hfront (hsame ▸ List.mem_cons_self)
      rw [List.cons_append, cutsFrom_cons (by simp), hc,
        ih fun hmem => hfront (List.mem_cons_of_mem _ hmem), List.map_map, Cut.push_behind]

/-- Behind a tag the search goes on within its line. -/
theorem cutsFrom_of_tag (htag : IsTagLine tag) (hafter : EndsLine after) :
    cutsFrom true (tag ++ after) =
      ⟨[], tag, after⟩ :: (cutsFrom false after).map (Cut.behind tag) := by
  have hstart := tagAtStart?_of_tag htag hafter
  have hfalse := cutsFrom_false_append htag.not_mem_feed after
  obtain ⟨c, rest, rfl⟩ := List.exists_cons_of_ne_nil htag.ne_nil
  rw [List.cons_append] at hstart hfalse ⊢
  rw [cutsFrom_cons (by simp)] at hfalse
  rw [cutsFrom, hstart, hfalse]
  rfl

/-- At a line break no tag begins. -/
theorem cutsFrom_of_break (hc : isBreak c = true) (text : List Char) :
    cutsFrom lineStart (c :: text) = (cutsFrom (c == '\n') text).map (Cut.push c) :=
  cutsFrom_cons fun _ => afterTag?_of_break hc text

theorem cutsFrom_of_endsLine (h : EndsLine after) : cutsFrom lineStart after = cutsFrom true after := by
  cases after with
  | nil => rfl
  | cons c rest => rw [cutsFrom_of_break (h c rfl), cutsFrom_of_break (h c rfl)]

theorem IsFeed.cutsFrom_append {feed : List Char} (h : IsFeed feed) (text : List Char) :
    cutsFrom lineStart (feed ++ text) = (cutsFrom true text).map (Cut.behind feed) := by
  rcases h with rfl | rfl
  · exact cutsFrom_of_break rfl text
  · refine (cutsFrom_of_break rfl _).trans ?_
    rw [show ('\r' == '\n') = false from rfl, List.append_eq, List.cons_append, List.nil_append,
      cutsFrom_of_break rfl, List.map_map]
    rfl

/-- A text without tags that ends a line can be put in front of another one: no tag of the two
together begins in it. -/
theorem cutsFrom_append (hstart : StartsLine lineStart front) (hnone : cutsFrom lineStart front = [])
    (back : List Char) :
    cutsFrom lineStart (front ++ back) = (cutsFrom true back).map (Cut.behind front) := by
  induction front generalizing lineStart with
  | nil =>
      obtain ⟨-, rfl⟩ := hstart.resolve_right (by simp)
      exact (List.map_id _).symm
  | cons c front ih =>
      rw [cutsFrom, List.append_eq_nil_iff, List.map_eq_nil_iff] at hnone
      have hrest := ih (startsLine_cons.mp hstart) hnone.2
      have hfeed : '\n' ∈ c :: front :=
        List.mem_of_getLast? (hstart.resolve_left (by simp))
      -- A tag of both together ends before the line feed at the end of the front part.
      have hbegins : lineStart = true → afterTag? (c :: (front ++ back)) = none := by
        rintro rfl
        rw [Option.eq_none_iff_forall_ne_some]
        intro after hafter
        obtain ⟨tag, htag, hends, heq⟩ := afterTag?_eq_some_iff.mp hafter
        rw [← List.cons_append] at heq
        rcases List.append_eq_append_iff.mp heq with ⟨inside, hlong, -⟩ | ⟨behind, hshort, hbehind⟩
        · exact htag.not_mem_feed (hlong ▸ List.mem_append_left _ hfeed)
        · have hne : behind ≠ [] := by
            rintro rfl
            rw [List.append_nil] at hshort
            exact htag.not_mem_feed (hshort ▸ hfeed)
          have hbreak : EndsLine behind := by
            intro d hd
            apply hends
            rw [hbehind, List.head?_append, Option.mem_def.mp hd]
            rfl
          rw [hshort, tagAtStart?_of_tag htag hbreak] at hnone
          cases hnone.1
      rw [List.cons_append, cutsFrom_cons hbegins, hrest, List.map_map, Cut.push_behind]

/-! ## The tags that are left -/

/-- In front of the first tag there is none. -/
theorem Cut.IsFirstTagOf.cutsFrom_before (h : cut.IsFirstTagOf text) :
    cutsFrom true cut.before = [] := by
  rw [List.eq_nil_iff_forall_not_mem]
  intro early hearly
  have htag := mem_cutsFrom_iff.mp hearly
  have hlength := congrArg List.length htag.text_eq
  have hpositive := List.length_pos_iff.mpr htag.isTagLine.ne_nil
  simp only [List.length_append] at hlength
  have hne : cut.before ≠ [] := by
    rintro hnil
    rw [hnil, List.length_nil] at hlength
    omega
  have hfeed := h.startsLine.resolve_left fun hempty => hne hempty.1
  have hafter : early.after ≠ [] := by
    intro hnil
    obtain ⟨last, hlast⟩ := Option.isSome_iff_exists.mp
      (List.getLast?_isSome.mpr htag.isTagLine.ne_nil)
    rw [htag.text_eq, hnil, List.append_nil, List.getLast?_append, hlast] at hfeed
    cases hfeed
    exact htag.isTagLine.not_mem_feed (List.mem_of_getLast? hlast)
  have hends : EndsLine (early.after ++ (cut.tag ++ cut.after)) := by
    have hearlyEnds := htag.endsLine
    obtain ⟨d, behind, hcons⟩ := List.exists_cons_of_ne_nil hafter
    rw [hcons] at hearlyEnds ⊢
    exact hearlyEnds
  have hle := h.first ⟨early.before, early.tag, early.after ++ (cut.tag ++ cut.after)⟩
    ⟨htag.startsLine, htag.isTagLine, hends, by
      rw [h.text_eq, htag.text_eq]; simp only [List.append_assoc]⟩
  dsimp only at hle
  omega

/-- The line feed that a text begins with, or nothing if it begins with none. -/
def IsLeadingFeed (feed text : List Char) : Prop :=
  (IsFeed feed ∧ feed <+: text) ∨ (feed = [] ∧ ∀ other, IsFeed other → ¬ other <+: text)

theorem exists_leadingFeed (text : List Char) :
    ∃ feed, IsLeadingFeed feed text ∧ text = feed ++ dropBreak text := by
  by_cases h : ∃ feed rest, IsFeed feed ∧ text = feed ++ rest
  · obtain ⟨feed, rest, hfeed, rfl⟩ := h
    exact ⟨feed, .inl ⟨hfeed, List.prefix_append _ _⟩, by rw [hfeed.dropBreak_append]⟩
  · have hnone : ∀ feed rest, IsFeed feed → text ≠ feed ++ rest :=
      fun feed rest hfeed heq => h ⟨feed, rest, hfeed, heq⟩
    refine ⟨[], .inr ⟨rfl, ?_⟩, (dropBreak_of_no_feed hnone).symm⟩
    rintro feed hfeed ⟨rest, heq⟩
    exact hnone feed rest hfeed heq.symm

/-- From the end of a tag line on, the tags are those behind its line feed. -/
theorem IsLeadingFeed.cutsFrom_append {feed : List Char} (h : IsLeadingFeed feed after)
    (hends : EndsLine after) (heq : after = feed ++ back) :
    cutsFrom false after = (cutsFrom true back).map (Cut.behind feed) := by
  rcases h with ⟨hfeed, -⟩ | ⟨rfl, -⟩
  · rw [heq, hfeed.cutsFrom_append]
  · rw [List.nil_append] at heq
    rw [cutsFrom_of_endsLine hends, heq]
    exact (List.map_id _).symm

/-- A text is another one without one piece of it: the first tag and the line feed directly behind
it, if there is one. The tags behind the piece are those of both texts. -/
structure TakesOut (first : Cut) (feed back text rest : List Char) : Prop where
  isFirst : first.IsFirstTagOf text
  leadingFeed : IsLeadingFeed feed first.after
  text_eq : text = first.before ++ ((first.tag ++ feed) ++ back)
  rest_eq : rest = first.before ++ back
  cuts_text :
    cuts text = first :: (cuts back).map (Cut.behind (first.before ++ (first.tag ++ feed)))
  cuts_rest : cuts rest = (cuts back).map (Cut.behind first.before)

theorem takesOut_of_cut? (h : cut? text = some cut) :
    ∃ feed back, TakesOut cut feed back text (strip text) := by
  have hfirst := isFirstTagOf_of_cut? h
  obtain ⟨feed, hfeed, hafter⟩ := exists_leadingFeed cut.after
  have hstart := hfirst.startsLine
  have hbefore := hfirst.cutsFrom_before
  have htext : text = cut.before ++ (cut.tag ++ cut.after) := hfirst.text_eq
  have hstrip : strip text = cut.before ++ dropBreak cut.after := by
    unfold strip
    rw [h]
  refine ⟨feed, dropBreak cut.after, hfirst, hfeed, ?_, hstrip, ?_, ?_⟩
  · rw [List.append_assoc cut.tag, ← hafter, ← htext]
  · calc cuts text
        = (cutsFrom true (cut.tag ++ cut.after)).map (Cut.behind cut.before) := by
          rw [← cutsFrom_append hstart hbefore, ← htext]
          rfl
      _ = cut :: ((cutsFrom false cut.after).map (Cut.behind cut.tag)).map
            (Cut.behind cut.before) := by
          rw [cutsFrom_of_tag hfirst.isTagLine hfirst.endsLine, List.map_cons]
          simp only [Cut.behind, List.append_nil]
      _ = _ := by
          rw [hfeed.cutsFrom_append hfirst.endsLine hafter, List.map_map, List.map_map,
            Cut.behind_behind, Cut.behind_behind, List.append_assoc]
          rfl
  · rw [hstrip]
    exact cutsFrom_append hstart hbefore _

/-- Stripping a text with tags takes out one piece, the first tag with its line feed, and leaves one
tag less: the others stand where they stood in the rest. A text without tags stays as it is. -/
theorem strip_takesOneTag (text : List Char) :
    AreTags (cuts text) text ∧ AreTags (cuts (strip text)) (strip text) ∧
      ((cuts text = [] ∧ strip text = text) ∨
        (cuts (strip text)).length + 1 = (cuts text).length ∧
          ∃ first feed back, TakesOut first feed back text (strip text)) := by
  refine ⟨areTags_cuts text, areTags_cuts (strip text), ?_⟩
  cases hcut : cut? text with
  | none =>
      refine .inl ⟨?_, by unfold strip; rw [hcut]⟩
      rw [List.eq_nil_iff_forall_not_mem]
      intro cut hmem
      exact cut?_eq_none_iff.mp hcut cut (mem_cutsFrom_iff.mp hmem)
  | some first =>
      obtain ⟨feed, back, htakes⟩ := takesOut_of_cut? hcut
      refine .inr ⟨?_, first, feed, back, htakes⟩
      rw [htakes.cuts_text, htakes.cuts_rest, List.length_cons, List.length_map, List.length_map]

/-- A tag that ends in a lone return leaves the return, and what stands behind it becomes no tag. -/
example : (cuts "// @atlas-entrypoint: a\r#@atlas-entrypoint: b\n\t#@atlas-entrypoint:".toList).map
      (fun cut => String.ofList cut.tag) = ["// @atlas-entrypoint: a", "\t#@atlas-entrypoint:"] ∧
    strip "// @atlas-entrypoint: a\r#@atlas-entrypoint: b\n\t#@atlas-entrypoint:".toList =
      "\r#@atlas-entrypoint: b\n\t#@atlas-entrypoint:".toList := by decide +kernel

end SourceAtlas.Tag
