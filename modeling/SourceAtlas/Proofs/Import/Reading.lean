import SourceAtlas.Import.Extraction

/-!
# Reading the targets of a rule

A match eats only characters that its rule mentions. A reading goes through a text from match to
match, and what it has found so far are the first targets in the text.
-/

namespace SourceAtlas

namespace Pattern

/-- The pattern can eat the character. -/
def mentions : Pattern → Char → Bool
  | literal text, c => text.contains c
  | one accepts, c => accepts c
  | run accepts, c => accepts c
  | seq first second, c => first.mentions c || second.mentions c
  | either left right, c => left.mentions c || right.mentions c

theorem eaten_of_runRests {accepts : Char → Bool} {shorter : List (List Char)}
    {text rest : List Char} (h : rest ∈ runRests accepts shorter text) :
    rest ∈ shorter ∨
      ∃ eaten, text = eaten ++ rest ∧ ∀ c ∈ eaten, accepts c = true := by
  induction text generalizing shorter with
  | nil =>
      rcases List.mem_cons.mp h with rfl | hmem
      · exact .inr ⟨[], rfl, fun c hc => nomatch hc⟩
      · exact .inl hmem
  | cons c text ih =>
      unfold runRests at h
      split at h
      · next haccepts =>
          rcases ih h with hmem | ⟨eaten, rfl, heaten⟩
          · rcases List.mem_cons.mp hmem with rfl | hmem
            · exact .inr ⟨[], rfl, fun c hc => nomatch hc⟩
            · exact .inl hmem
          · exact .inr ⟨c :: eaten, rfl, List.forall_mem_cons.mpr ⟨haccepts, heaten⟩⟩
      · rcases List.mem_cons.mp h with rfl | hmem
        · exact .inr ⟨[], rfl, fun c hc => nomatch hc⟩
        · exact .inl hmem

/-- What is left of a text comes behind characters that the pattern mentions. -/
theorem eaten_of_rests {pattern : Pattern} {text rest : List Char} (h : rest ∈ pattern.rests text) :
    ∃ eaten, text = eaten ++ rest ∧ ∀ c ∈ eaten, pattern.mentions c = true := by
  induction pattern generalizing text rest with
  | literal start =>
      have hdrop := Text.dropStart?_eq_some_iff.mp (Option.mem_toList.mp h)
      exact ⟨start, hdrop, fun c hc => by simpa [mentions] using hc⟩
  | one accepts =>
      unfold rests at h
      split at h
      · cases h
      · next c behind =>
          split at h
          · next haccepts =>
              obtain rfl := List.mem_singleton.mp h
              exact ⟨[c], rfl, List.forall_mem_singleton.mpr haccepts⟩
          · cases h
  | run accepts =>
      rcases eaten_of_runRests h with hmem | hfound
      · cases hmem
      · exact hfound
  | seq first second ihFirst ihSecond =>
      obtain ⟨between, hfirst, hsecond⟩ := List.mem_flatMap.mp h
      obtain ⟨front, rfl, hfront⟩ := ihFirst hfirst
      obtain ⟨back, rfl, hback⟩ := ihSecond hsecond
      refine ⟨front ++ back, (List.append_assoc ..).symm, fun c hc => ?_⟩
      rw [mentions, Bool.or_eq_true]
      exact (List.mem_append.mp hc).imp (hfront c) (hback c)
  | either left right ihLeft ihRight =>
      rcases List.mem_append.mp h with hleft | hright
      · obtain ⟨eaten, rfl, heaten⟩ := ihLeft hleft
        exact ⟨eaten, rfl, fun c hc => by simp [mentions, heaten c hc]⟩
      · obtain ⟨eaten, rfl, heaten⟩ := ihRight hright
        exact ⟨eaten, rfl, fun c hc => by simp [mentions, heaten c hc]⟩

/-- The fixed text that every match of the pattern starts with. -/
def leading : Pattern → List Char
  | literal text => text
  | seq first _ => first.leading
  | _ => []

theorem leading_of_rests {pattern : Pattern} {text rest : List Char}
    (h : rest ∈ pattern.rests text) : ∃ eaten, text = pattern.leading ++ (eaten ++ rest) := by
  induction pattern generalizing text rest with
  | literal start => exact ⟨[], Text.dropStart?_eq_some_iff.mp (Option.mem_toList.mp h)⟩
  | seq first second ih _ =>
      obtain ⟨between, hfirst, hsecond⟩ := List.mem_flatMap.mp h
      obtain ⟨front, hfront⟩ := ih hfirst
      obtain ⟨back, rfl, -⟩ := eaten_of_rests hsecond
      exact ⟨front ++ back, by rw [hfront, List.append_assoc, leading]⟩
  | one | run | either =>
      obtain ⟨eaten, hsplit, -⟩ := eaten_of_rests h
      exact ⟨eaten, hsplit⟩

end Pattern

namespace ImportRule

variable {rule : ImportRule} {text after rest target : List Char} {found : List (List Char)}

/-- A match of the rule can eat the character. -/
def mentions (rule : ImportRule) (c : Char) : Bool :=
  rule.lead.mentions c || rule.target.mentions c || rule.tail.mentions c

/-- What is left behind a match comes behind characters that the rule mentions. -/
theorem eaten_of_matchesAt (h : (target, rest) ∈ rule.matchesAt text) :
    ∃ eaten, text = eaten ++ rest ∧ ∀ c ∈ eaten, rule.mentions c = true := by
  unfold matchesAt at h
  simp only [List.mem_flatMap, List.mem_map, Prod.mk.injEq] at h
  obtain ⟨atTarget, hlead, behind, htarget, last, htail, -, rfl⟩ := h
  obtain ⟨first, rfl, hfirst⟩ := Pattern.eaten_of_rests hlead
  obtain ⟨second, rfl, hsecond⟩ := Pattern.eaten_of_rests htarget
  obtain ⟨third, rfl, hthird⟩ := Pattern.eaten_of_rests htail
  refine ⟨first ++ (second ++ third), by simp, fun c hc => ?_⟩
  simp only [List.mem_append] at hc
  rcases hc with hc | hc | hc
  · simp [mentions, hfirst c hc]
  · simp [mentions, hsecond c hc]
  · simp [mentions, hthird c hc]

/-- The rule matches at any place of a line, and each of its matches eats something. -/
structure IsFree (rule : ImportRule) : Prop where
  anywhere : rule.atLineStart = false
  eats : ∀ text target rest, (target, rest) ∈ rule.matchesAt text → rest.length < text.length

theorem leading_of_matchesAt (h : (target, rest) ∈ rule.matchesAt text) :
    ∃ eaten, text = rule.lead.leading ++ (eaten ++ rest) := by
  unfold matchesAt at h
  simp only [List.mem_flatMap, List.mem_map, Prod.mk.injEq] at h
  obtain ⟨atTarget, hlead, behind, htarget, last, htail, -, rfl⟩ := h
  obtain ⟨first, hfirst⟩ := Pattern.leading_of_rests hlead
  obtain ⟨second, rfl, -⟩ := Pattern.eaten_of_rests htarget
  obtain ⟨third, rfl, -⟩ := Pattern.eaten_of_rests htail
  exact ⟨first ++ (second ++ third), by simpa using hfirst⟩

/-- A rule that starts with a fixed text eats something. -/
theorem isFree_of_leading (hanywhere : rule.atLineStart = false) (hne : rule.lead.leading ≠ []) :
    rule.IsFree where
  anywhere := hanywhere
  eats text target rest h := by
    obtain ⟨eaten, rfl⟩ := leading_of_matchesAt h
    have hlength := List.length_pos_iff.mpr hne
    simp only [List.length_append]
    omega

/-- A reading of a text: the targets that were found, and the rest of the text. -/
inductive Reads (rule : ImportRule) : List Char → List (List Char) → List Char → Prop
  | done (text : List Char) : Reads rule text [] text
  | skip {c : Char} {text : List Char} {found : List (List Char)} {rest : List Char}
      (hnone : (rule.matchesAt (c :: text)).head? = none) (h : Reads rule text found rest) :
      Reads rule (c :: text) found rest
  | take {c : Char} {text target after : List Char} {found : List (List Char)} {rest : List Char}
      (hsome : (rule.matchesAt (c :: text)).head? = some (target, after))
      (h : Reads rule after found rest) : Reads rule (c :: text) (target :: found) rest

theorem Reads.trans {middle : List Char} {later : List (List Char)}
    (h : rule.Reads text found middle) (hlater : rule.Reads middle later rest) :
    rule.Reads text (found ++ later) rest := by
  induction h with
  | done => exact hlater
  | skip hnone h ih => exact .skip hnone (ih hlater)
  | take hsome h ih => exact .take hsome (ih hlater)

theorem IsFree.length_lt (h : rule.IsFree) {c : Char}
    (hsome : (rule.matchesAt (c :: text)).head? = some (target, after)) :
    after.length < text.length + 1 :=
  h.eats _ _ _ (List.mem_of_head? hsome)

/-- How much fuel there is and whether a line starts makes no difference. -/
theorem IsFree.scanFuel_congr (h : rule.IsFree) {fuel other : Nat} (hfuel : text.length ≤ fuel)
    (hother : text.length ≤ other) (lineStart otherStart : Bool) :
    rule.scanFuel fuel lineStart text = rule.scanFuel other otherStart text := by
  induction fuel generalizing text other lineStart otherStart with
  | zero =>
      obtain rfl := List.length_eq_zero_iff.mp (Nat.le_zero.mp hfuel)
      cases other <;> rfl
  | succ fuel ih =>
      cases text with
      | nil => cases other <;> rfl
      | cons c text =>
          rw [List.length_cons] at hfuel hother
          obtain ⟨other, rfl⟩ : ∃ less, other = less + 1 := ⟨other - 1, by omega⟩
          rw [scanFuel, scanFuel, h.anywhere]
          simp only [Bool.false_and, Bool.false_eq_true, if_false]
          cases hhead : (rule.matchesAt (c :: text)).head? with
          | none => exact ih (by omega) (by omega) _ _
          | some found =>
              have hlt := h.length_lt hhead
              exact congrArg _ (ih (by omega) (by omega) _ _)

theorem IsFree.scan_cons (h : rule.IsFree) (c : Char) (text : List Char) :
    rule.scan (c :: text) =
      match (rule.matchesAt (c :: text)).head? with
      | none => rule.scan text
      | some (target, after) => target :: rule.scan after := by
  rw [scan, List.length_cons, scanFuel, h.anywhere]
  simp only [Bool.false_and, Bool.false_eq_true, if_false]
  cases hhead : (rule.matchesAt (c :: text)).head? with
  | none => exact h.scanFuel_congr (Nat.le_refl _) (Nat.le_refl _) _ _
  | some found =>
      have hlt := h.length_lt hhead
      exact congrArg _ (h.scanFuel_congr (by omega) (Nat.le_refl _) _ _)

/-- Where there is one way to match, it is taken. -/
theorem head?_matchesAt
    (h : ∀ {other back}, (other, back) ∈ rule.matchesAt text ↔ target = other ∧ after = back) :
    (rule.matchesAt text).head? = some (target, after) := by
  have hmem := h.mpr ⟨rfl, rfl⟩
  cases hmatches : rule.matchesAt text with
  | nil => exact absurd (hmatches ▸ hmem) List.not_mem_nil
  | cons found others =>
      obtain ⟨other, back⟩ := found
      obtain ⟨rfl, rfl⟩ := h.mp (hmatches ▸ List.mem_cons_self : (other, back) ∈ _)
      rfl

theorem reads_of_mem_iff {c : Char} (h : ∀ {other back},
    (other, back) ∈ rule.matchesAt (c :: text) ↔ target = other ∧ after = back) :
    rule.Reads (c :: text) [target] after := .take (head?_matchesAt h) (.done after)

/-- A match at the start of a text is taken, also by a rule for the starts of lines. -/
theorem mem_scan_of_head? {c : Char}
    (h : (rule.matchesAt (c :: text)).head? = some (target, after)) :
    target ∈ rule.scan (c :: text) := by
  rw [scan, List.length_cons, scanFuel, Bool.not_true, Bool.and_false, h]
  exact List.mem_cons_self

/-- What a reading has found are the first targets in the text. -/
theorem Reads.scan (h : rule.Reads text found rest) (hfree : rule.IsFree) :
    rule.scan text = found ++ rule.scan rest := by
  induction h with
  | done => rfl
  | skip hnone h ih => rw [hfree.scan_cons, hnone, ih]
  | take hsome h ih =>
      rw [hfree.scan_cons, hsome]
      dsimp only
      rw [ih, List.cons_append]

/-- No match starts in the front of a text while the back stands behind it. -/
def Quiet (rule : ImportRule) : List Char → List Char → Prop
  | [], _ => True
  | c :: front, back => rule.matchesAt (c :: (front ++ back)) = [] ∧ rule.Quiet front back

/-- It is enough to look at every place of the front. -/
theorem quiet_of_suffix {front back : List Char} (h : ∀ part, part ≠ [] → part <:+ front →
    ∀ target rest, (target, rest) ∉ rule.matchesAt (part ++ back)) : rule.Quiet front back := by
  induction front with
  | nil => trivial
  | cons c front ih =>
      exact ⟨List.eq_nil_iff_forall_not_mem.mpr fun ⟨target, rest⟩ =>
          h (c :: front) (List.cons_ne_nil _ _) (List.suffix_refl _) target rest,
        ih fun part hne hpart => h part hne (hpart.trans (List.suffix_cons c front))⟩

theorem Quiet.reads {front back : List Char} (h : rule.Quiet front back) :
    rule.Reads (front ++ back) [] back := by
  induction front with
  | nil => exact .done _
  | cons c front ih =>
      have hnone : (rule.matchesAt (c :: (front ++ back))).head? = none := by
        rw [h.1]
        rfl
      exact .skip hnone (ih h.2)

theorem quiet_append {front middle back : List Char} :
    rule.Quiet (front ++ middle) back ↔
      rule.Quiet front (middle ++ back) ∧ rule.Quiet middle back := by
  induction front with
  | nil => exact (and_iff_right trivial).symm
  | cons c front ih =>
      rw [List.cons_append, Quiet, Quiet, ih, List.append_assoc, and_assoc]

/-- A reading gets to any character that the rule does not mention. -/
theorem IsFree.reads_to (h : rule.IsFree) {c : Char} (hc : rule.mentions c = false)
    (front back : List Char) : ∃ found, rule.Reads (front ++ c :: back) found (c :: back) := by
  generalize hmeasure : front.length = measure
  induction measure using Nat.strongRecOn generalizing front with
  | ind measure ih =>
      cases front with
      | nil => exact ⟨[], .done _⟩
      | cons d front =>
          rw [List.length_cons] at hmeasure
          cases hhead : (rule.matchesAt (d :: (front ++ c :: back))).head? with
          | none =>
              obtain ⟨found, hfound⟩ := ih front.length (by omega) front rfl
              exact ⟨found, .skip hhead hfound⟩
          | some match? =>
              obtain ⟨target, after⟩ := match?
              -- the match ends before the character, so its rest still has all of `c :: back`
              obtain ⟨eaten, hsplit, heaten⟩ := eaten_of_matchesAt (List.mem_of_head? hhead)
              have hlt := h.length_lt hhead
              obtain ⟨less, rfl⟩ : ∃ less, after = less ++ c :: back := by
                rw [← List.cons_append, List.append_eq_append_iff] at hsplit
                rcases hsplit with ⟨more, rfl, hmore⟩ | ⟨more, -, rfl⟩
                · cases more with
                  | nil => exact ⟨[], hmore.symm⟩
                  | cons first more =>
                      cases hmore
                      have hwrong := heaten c (by simp)
                      rw [hc] at hwrong
                      cases hwrong
                · exact ⟨more, rfl⟩
              simp only [List.length_append, List.length_cons] at hlt
              obtain ⟨found, hfound⟩ := ih less.length (by omega) less rfl
              exact ⟨target :: found, .take hhead hfound⟩

end ImportRule

end SourceAtlas
