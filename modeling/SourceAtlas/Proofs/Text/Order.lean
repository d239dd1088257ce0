import Mathlib.Data.List.Perm.Subperm
import Mathlib.Data.String.Basic
import SourceAtlas.Text.Order

/-!
# Sorted texts

Texts sorted without repetitions ascend, and they are determined by their set.
-/

namespace SourceAtlas.Text

theorem codePointLe_iff {a b : String} : codePointLe a b = true ↔ a ≤ b := by
  simp [codePointLe]

theorem codePointLe_trans (a b c : String) (hab : codePointLe a b = true)
    (hbc : codePointLe b c = true) : codePointLe a c = true := by
  rw [codePointLe_iff] at *
  exact le_trans hab hbc

theorem codePointLe_total (a b : String) : (codePointLe a b || codePointLe b a) = true := by
  simpa only [Bool.or_eq_true, codePointLe_iff] using le_total a b

theorem mem_dropRepeats {text : String} {texts : List String} :
    text ∈ dropRepeats texts ↔ text ∈ texts := by
  induction texts using dropRepeats.induct with
  | case1 b rest ih =>
      rw [dropRepeats, if_pos rfl, ih]
      simp
  | case2 a b rest hne ih =>
      rw [dropRepeats, if_neg hne, List.mem_cons, ih]
      exact List.mem_cons.symm
  | case3 rest hshort => rw [dropRepeats]; exact hshort

theorem pairwise_dropRepeats {texts : List String} (h : texts.Pairwise (· ≤ ·)) :
    (dropRepeats texts).Pairwise (· < ·) := by
  induction texts using dropRepeats.induct with
  | case1 b rest ih =>
      rw [dropRepeats, if_pos rfl]
      exact ih h.of_cons
  | case2 a b rest hne ih =>
      rw [dropRepeats, if_neg hne, List.pairwise_cons]
      refine ⟨fun text hmem => ?_, ih h.of_cons⟩
      have hfirst := List.rel_of_pairwise_cons h (List.mem_cons_self (a := b) (l := rest))
      have hlt : a < b := lt_of_le_of_ne hfirst hne
      rcases List.mem_cons.mp (mem_dropRepeats.mp hmem) with rfl | hrest
      · exact hlt
      · exact lt_of_lt_of_le hlt (List.rel_of_pairwise_cons h.of_cons hrest)
  | case3 rest hshort =>
      rw [dropRepeats]
      · cases rest with
        | nil => exact List.Pairwise.nil
        | cons a rest =>
            cases rest with
            | nil => exact List.pairwise_singleton _ _
            | cons b rest => exact absurd rfl (hshort a b rest)
      · exact hshort

theorem mem_sortDistinct {text : String} {texts : List String} :
    text ∈ sortDistinct texts ↔ text ∈ texts := by
  rw [sortDistinct, mem_dropRepeats, List.mem_mergeSort]

theorem pairwise_sortDistinct (texts : List String) :
    (sortDistinct texts).Pairwise (· < ·) := by
  refine pairwise_dropRepeats ?_
  have hsorted : (texts.mergeSort codePointLe).Pairwise fun a b => codePointLe a b = true :=
    List.pairwise_mergeSort codePointLe_trans codePointLe_total texts
  simpa only [codePointLe_iff] using hsorted

/-- Ascending lists with the same members are equal. -/
theorem eq_of_mem_iff {first second : List String} (hfirst : first.Pairwise (· < ·))
    (hsecond : second.Pairwise (· < ·)) (h : ∀ text, text ∈ first ↔ text ∈ second) :
    first = second := by
  have hperm : first.Perm second :=
    (List.perm_ext_iff_of_nodup (hfirst.imp ne_of_lt) (hsecond.imp ne_of_lt)).mpr h
  exact hperm.eq_of_pairwise (fun a b _ _ hab hba => absurd hba (lt_asymm hab)) hfirst hsecond

/-- Texts that ascend are sorted already. -/
theorem sortDistinct_of_pairwise {texts : List String} (h : texts.Pairwise (· < ·)) :
    sortDistinct texts = texts :=
  eq_of_mem_iff (pairwise_sortDistinct texts) h fun _ => mem_sortDistinct

/-- Selecting among texts may be done before or after they are sorted. -/
theorem sortDistinct_filter (p : String → Bool) (texts : List String) :
    sortDistinct (texts.filter p) = (sortDistinct texts).filter p := by
  refine eq_of_mem_iff (pairwise_sortDistinct _) ((pairwise_sortDistinct texts).filter p)
    fun text => ?_
  rw [mem_sortDistinct, List.mem_filter, List.mem_filter, mem_sortDistinct]

/-- More texts make a longer list. -/
theorem length_sortDistinct_le {first second : List String} (h : ∀ text ∈ first, text ∈ second) :
    (sortDistinct first).length ≤ (sortDistinct second).length := by
  have hnodup : (sortDistinct first).Nodup := (pairwise_sortDistinct first).imp ne_of_lt
  refine (List.subperm_of_subset hnodup fun text hmem => ?_).length_le
  exact mem_sortDistinct.mpr (h text (mem_sortDistinct.mp hmem))

end SourceAtlas.Text
