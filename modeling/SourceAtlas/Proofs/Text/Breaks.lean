import Mathlib.Data.List.Forall2
import SourceAtlas.Proofs.Text.Newline
import SourceAtlas.Text.Digit

/-!
# Texts with the same line breaks

Two texts are alike if they can stand for each other wherever lines are counted. Numbers are alike:
they are not empty, and there is no line break in them.
-/

namespace SourceAtlas.Text

/-- In every context the texts give the same number of lines. -/
def IsAlike (first second : List Char) : Prop :=
  ∀ front back, lineCount (translateNewlines (front ++ (first ++ back))) =
    lineCount (translateNewlines (front ++ (second ++ back)))

variable {first second third fourth : List Char}

theorem IsAlike.refl (text : List Char) : IsAlike text text := fun _ _ => rfl

theorem IsAlike.append (h : IsAlike first second) (hback : IsAlike third fourth) :
    IsAlike (first ++ third) (second ++ fourth) := by
  intro front back
  have hfirst := h front (third ++ back)
  have hsecond := hback (front ++ second) back
  simp only [List.append_assoc] at hfirst hsecond ⊢
  exact hfirst.trans hsecond

theorem IsAlike.lineCount_eq (h : IsAlike first second) :
    lineCount (translateNewlines first) = lineCount (translateNewlines second) := by
  simpa using h [] []

/-- A text that is not empty and has no line break in it. -/
structure IsSolid (text : List Char) : Prop where
  ne_nil : text ≠ []
  noReturn : '\r' ∉ text
  noFeed : '\n' ∉ text

theorem IsSolid.lineCount_append (h : IsSolid first) (front back : List Char) :
    lineCount (translateNewlines (front ++ (first ++ back))) =
      (translateNewlines front).count '\n' + (translateNewlines back).count '\n' + 1 := by
  have hhead : (first ++ back).head? ≠ some '\n' := by
    obtain ⟨c, rest, rfl⟩ := List.exists_cons_of_ne_nil h.ne_nil
    intro hc
    cases hc
    exact h.noFeed List.mem_cons_self
  rw [translateNewlines_append (.inr hhead), translateNewlines_append_of_not_mem h.noReturn,
    lineCount, List.count_append, List.count_append, List.count_eq_zero.mpr h.noFeed, Nat.zero_add]

/-- Solid texts are alike. -/
theorem IsSolid.isAlike (hfirst : IsSolid first) (hsecond : IsSolid second) :
    IsAlike first second := fun front back => by
  rw [hfirst.lineCount_append, hsecond.lineCount_append]

/-! ## Numbers -/

theorem isSolid_of_digits (hne : first ≠ []) (h : ∀ c ∈ first, c.isDigit = true ∨ c = ',') :
    IsSolid first where
  ne_nil := hne
  noReturn hmem := by
    rcases h _ hmem with hdigit | hcomma
    · cases hdigit
    · cases hcomma
  noFeed hmem := by
    rcases h _ hmem with hdigit | hcomma
    · cases hdigit
    · cases hcomma

theorem isSolid_toString (n : Nat) : IsSolid (toString n).toList := by
  have htext : (toString n).toList = Nat.toDigits 10 n := by simp
  rw [htext]
  refine isSolid_of_digits Nat.toDigits_ne_nil fun c hc => .inl ?_
  exact Nat.isDigit_of_mem_toDigits (by decide) (by decide) hc

theorem mem_groupReversed {c : Char} {digits : List Char} (h : c ∈ groupReversed digits) :
    c ∈ digits ∨ c = ',' := by
  induction digits using groupReversed.induct with
  | case1 a b d e rest ih =>
      simp only [groupReversed, List.mem_cons] at h ih ⊢
      tauto
  | case2 digits hshort =>
      rw [groupReversed] at h
      · exact .inl h
      · exact hshort

theorem groupReversed_ne_nil {digits : List Char} (h : digits ≠ []) : groupReversed digits ≠ [] := by
  unfold groupReversed
  split
  · exact List.cons_ne_nil _ _
  · exact h

theorem isSolid_thousands (n : Nat) : IsSolid (thousands n).toList := by
  have hnonneg : ¬ (n : Int) < 0 := by omega
  unfold thousands groupedDigits
  rw [if_neg hnonneg, String.toList_ofList, Int.natAbs_natCast]
  refine isSolid_of_digits ?_ fun c hc => ?_
  · exact fun hnil => groupReversed_ne_nil (by simp [Nat.toDigits_ne_nil])
      (List.reverse_eq_nil_iff.mp hnil)
  · refine (mem_groupReversed (List.mem_reverse.mp hc)).imp_left fun hdigit => ?_
    exact Nat.isDigit_of_mem_toDigits (by decide) (by decide) (List.mem_reverse.mp hdigit)

/-! ## Lines -/

/-- Strings that are alike. -/
def AlikeStrings (first second : String) : Prop := IsAlike first.toList second.toList

theorem AlikeStrings.refl (text : String) : AlikeStrings text text := IsAlike.refl _

theorem AlikeStrings.append {a b c d : String} (h : AlikeStrings a b) (hback : AlikeStrings c d) :
    AlikeStrings (a ++ c) (b ++ d) := by
  unfold AlikeStrings at *
  rw [String.toList_append, String.toList_append]
  exact h.append hback

theorem AlikeStrings.join {lines others : List String} (h : List.Forall₂ AlikeStrings lines others)
    (ending : String) :
    AlikeStrings (String.join (lines.map (· ++ ending))) (String.join (others.map (· ++ ending))) := by
  induction h with
  | nil => exact .refl _
  | cons hfirst _ ih =>
      rw [List.map_cons, List.map_cons, String.join_cons, String.join_cons]
      exact (hfirst.append (.refl ending)).append ih

end SourceAtlas.Text
