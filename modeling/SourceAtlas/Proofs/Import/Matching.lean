import Mathlib.Data.List.TakeWhile
import SourceAtlas.Proofs.Import.Reading

/-!
# Matching step by step

A pattern is followed through a text by what it allows to come next. A run of characters in front of
one that it does not accept is eaten as a whole, wherever the next step could not start inside it.
-/

namespace SourceAtlas

namespace Text

variable {accepts : Char → Bool} {front other back rest : List Char}

/-- What holds of all characters of a text is decided along the text, not over all characters. -/
instance (priority := high) decidableForallMem {p : Char → Prop} [DecidablePred p] (text : List Char) :
    Decidable (∀ c ∈ text, p c) := List.decidableBAll p text

/-- If no character of one class is in another, none of the other is in the one. -/
theorem disjoint_symm {other : Char → Bool} (h : ∀ c, accepts c = true → other c = false) (c : Char)
    (hc : other c = true) : accepts c = false := by
  cases haccepts : accepts c with
  | false => rfl
  | true =>
      rw [h c haccepts] at hc
      cases hc

/-- The text does not go on with a character of the class. -/
def Stops (accepts : Char → Bool) (text : List Char) : Prop := ∀ c ∈ text.head?, accepts c = false

theorem stops_nil : Stops accepts [] := fun _ hc => nomatch hc

theorem stops_cons {c : Char} : Stops accepts (c :: rest) ↔ accepts c = false := by
  simp [Stops]

theorem takeWhile_of_stops (hfront : ∀ c ∈ front, accepts c = true) (hback : Stops accepts back) :
    (front ++ back).takeWhile accepts = front := by
  rw [List.takeWhile_append_of_pos hfront]
  cases back with
  | nil => rw [List.takeWhile_nil, List.append_nil]
  | cons c back =>
      rw [List.takeWhile_cons_of_neg (by simpa using stops_cons.mp hback), List.append_nil]

/-- A text is cut in one way only where a run of a class ends. -/
theorem append_inj_of_stops (h : front ++ back = other ++ rest)
    (hfront : ∀ c ∈ front, accepts c = true) (hother : ∀ c ∈ other, accepts c = true)
    (hback : Stops accepts back) (hrest : Stops accepts rest) : front = other ∧ back = rest := by
  have hsame : front = other := by
    rw [← takeWhile_of_stops hfront hback, h, takeWhile_of_stops hother hrest]
  subst hsame
  exact ⟨rfl, List.append_cancel_left h⟩

end Text

namespace Pattern

open Text

variable {first second p : Pattern} {accepts : Char → Bool} {text front back start : List Char}
  {next : List Char → Prop} {c : Char}

/-- The pattern matches at the start of the text in a way that leaves what is to come next. -/
def Allows (p : Pattern) (text : List Char) (next : List Char → Prop) : Prop :=
  ∃ rest ∈ p.rests text, next rest

theorem allows_seq : (first ++ second).Allows text next ↔
    first.Allows text fun rest => second.Allows rest next := by
  have hrests : (first ++ second).rests text = (first.rests text).flatMap second.rests := rfl
  unfold Allows
  rw [hrests]
  simp only [List.mem_flatMap]
  constructor
  · rintro ⟨rest, ⟨between, hbetween, hrest⟩, hnext⟩
    exact ⟨between, hbetween, rest, hrest, hnext⟩
  · rintro ⟨between, hbetween, rest, hrest, hnext⟩
    exact ⟨rest, ⟨between, hbetween, hrest⟩, hnext⟩

theorem allows_either : (either first second).Allows text next ↔
    first.Allows text next ∨ second.Allows text next := by
  simp only [Allows, rests, List.mem_append, or_and_right, exists_or]

theorem allows_literal : (literal start).Allows text next ↔
    ∃ rest, text = start ++ rest ∧ next rest := by
  simp only [Allows, rests, Option.mem_toList, dropStart?_eq_some_iff]

theorem allows_literal_append (start : List Char) :
    (literal start).Allows (start ++ back) next ↔ next back := by
  rw [allows_literal]
  constructor
  · rintro ⟨rest, hrest, hnext⟩
    exact List.append_cancel_left hrest ▸ hnext
  · exact fun hnext => ⟨back, rfl, hnext⟩

theorem allows_optional : p.optional.Allows text next ↔ p.Allows text next ∨ next text := by
  have hnothing : (literal []).Allows text next ↔ next text := allows_literal_append []
  rw [optional, allows_either, hnothing]

theorem allows_one : (one accepts).Allows text next ↔
    ∃ c rest, text = c :: rest ∧ accepts c = true ∧ next rest := by
  cases text with
  | nil => simp [Allows, rests]
  | cons d text =>
      simp only [Allows, rests, List.cons.injEq]
      constructor
      · rintro ⟨rest, hrest, hnext⟩
        split at hrest
        · next haccepts =>
            obtain rfl := List.mem_singleton.mp hrest
            exact ⟨d, rest, ⟨rfl, rfl⟩, haccepts, hnext⟩
        · cases hrest
      · rintro ⟨c, rest, ⟨rfl, rfl⟩, haccepts, hnext⟩
        exact ⟨text, by simp [haccepts], hnext⟩

theorem accepts_of_allows_one (h : (one accepts).Allows (c :: text) next) : accepts c = true := by
  obtain ⟨d, behind, hsplit, hd, -⟩ := allows_one.mp h
  obtain ⟨rfl, -⟩ := List.cons.inj hsplit
  exact hd

theorem accepts_of_allows_run1 (h : (run1 accepts).Allows (c :: text) next) : accepts c = true :=
  accepts_of_allows_one (allows_seq.mp h)

theorem not_allows_one_nil : ¬ (one accepts).Allows [] next := fun h => by
  obtain ⟨c, rest, hsplit, -⟩ := allows_one.mp h
  cases hsplit

theorem not_allows_run1_nil : ¬ (run1 accepts).Allows [] next := fun h =>
  not_allows_one_nil (allows_seq.mp h)

theorem mem_runRests_of_mem {shorter : List (List Char)} (h : back ∈ shorter) :
    back ∈ runRests accepts shorter text := by
  induction text generalizing shorter with
  | nil => exact List.mem_cons_of_mem _ h
  | cons c text ih =>
      rw [runRests]
      split
      · exact ih (List.mem_cons_of_mem _ h)
      · exact List.mem_cons_of_mem _ h

theorem mem_runRests_append {shorter : List (List Char)} (hfront : ∀ c ∈ front, accepts c = true) :
    back ∈ runRests accepts shorter (front ++ back) := by
  induction front generalizing shorter with
  | nil =>
      cases back with
      | nil => exact List.mem_cons_self
      | cons c back =>
          rw [List.nil_append, runRests]
          split
          · exact mem_runRests_of_mem List.mem_cons_self
          · exact List.mem_cons_self
  | cons c front ih =>
      rw [List.cons_append, runRests, if_pos (hfront c List.mem_cons_self)]
      exact ih fun d hd => hfront d (List.mem_cons_of_mem _ hd)

theorem allows_run : (run accepts).Allows text next ↔
    ∃ front back, text = front ++ back ∧ (∀ c ∈ front, accepts c = true) ∧ next back := by
  constructor
  · rintro ⟨back, hback, hnext⟩
    rcases eaten_of_runRests hback with hmem | ⟨front, htext, hfront⟩
    · cases hmem
    · exact ⟨front, back, htext, hfront, hnext⟩
  · rintro ⟨front, back, rfl, hfront, hnext⟩
    exact ⟨back, mem_runRests_append hfront, hnext⟩

/-- A run goes to its end if the next step cannot start inside it. -/
theorem allows_run_append (hfront : ∀ c ∈ front, accepts c = true) (hback : Stops accepts back)
    (hnext : ∀ c rest, next (c :: rest) → accepts c = false) :
    (run accepts).Allows (front ++ back) next ↔ next back := by
  rw [allows_run]
  constructor
  · rintro ⟨other, rest, hsplit, hother, hrest⟩
    have hstops : Stops accepts rest := by
      intro c hc
      obtain ⟨behind, rfl⟩ := List.head?_eq_some_iff.mp hc
      exact hnext c behind hrest
    exact (append_inj_of_stops hsplit hfront hother hback hstops).2 ▸ hrest
  · exact fun hrest => ⟨front, back, rfl, hfront, hrest⟩

theorem allows_run_of_stops (htext : Stops accepts text)
    (hnext : ∀ c rest, next (c :: rest) → accepts c = false) :
    (run accepts).Allows text next ↔ next text := by
  have hempty : ∀ c ∈ ([] : List Char), accepts c = true := fun c hc => nomatch hc
  exact allows_run_append hempty htext hnext

/-- The same of a run that is not empty. -/
theorem allows_run1_append (hfront : ∀ c ∈ front, accepts c = true) (hback : Stops accepts back)
    (hnext : ∀ c rest, next (c :: rest) → accepts c = false) :
    (run1 accepts).Allows (front ++ back) next ↔ front ≠ [] ∧ next back := by
  have hsplit : (run1 accepts).Allows (front ++ back) next ↔
      (one accepts).Allows (front ++ back) fun rest => (run accepts).Allows rest next := allows_seq
  rw [hsplit, allows_one]
  cases front with
  | nil =>
      refine ⟨?_, fun h => absurd rfl h.1⟩
      rintro ⟨c, rest, rfl, haccepts, -⟩
      rw [stops_cons.mp hback] at haccepts
      cases haccepts
  | cons d front =>
      have hbehind : ∀ c ∈ front, accepts c = true := fun c hc => hfront c (List.mem_cons_of_mem _ hc)
      have hrest := allows_run_append hbehind hback hnext
      constructor
      · rintro ⟨c, rest, hsame, -, hallows⟩
        obtain ⟨rfl, rfl⟩ := List.cons.inj hsame
        exact ⟨List.cons_ne_nil _ _, hrest.mp hallows⟩
      · rintro ⟨-, hback⟩
        exact ⟨d, front ++ back, rfl, hfront d List.mem_cons_self, hrest.mpr hback⟩

end Pattern

theorem ImportRule.consumed_append (front back : List Char) :
    ImportRule.consumed (front ++ back) back = front := by
  unfold consumed
  rw [List.length_append, Nat.add_sub_cancel, List.take_left]

/-- A rule matches where its three parts are allowed one after the other. -/
theorem ImportRule.mem_matchesAt {rule : ImportRule} {text target rest : List Char} :
    (target, rest) ∈ rule.matchesAt text ↔
      rule.lead.Allows text fun atTarget => rule.target.Allows atTarget fun behind =>
        consumed atTarget behind = target ∧ rule.tail.Allows behind (· = rest) := by
  unfold matchesAt Pattern.Allows
  simp only [List.mem_flatMap, List.mem_map, Prod.mk.injEq]
  constructor
  · rintro ⟨atTarget, hlead, behind, htarget, last, htail, hconsumed, rfl⟩
    exact ⟨atTarget, hlead, behind, htarget, hconsumed, last, htail, rfl⟩
  · rintro ⟨atTarget, hlead, behind, htarget, hconsumed, last, htail, rfl⟩
    exact ⟨atTarget, hlead, behind, htarget, last, htail, hconsumed, rfl⟩

end SourceAtlas
