import Mathlib.Data.List.Perm.Basic

/-!
# Stable sorting

Sorting leaves the elements that the order does not tell apart in the places that they have among
each other. So what holds of every pair of elements, the first one in front, still holds of those.
-/

namespace SourceAtlas.Sorting

variable {α : Type} {le : α → α → Bool}

/-- The order does not tell an element apart from another one. -/
def isTied (le : α → α → Bool) (pivot item : α) : Bool := le pivot item && le item pivot

theorem filter_mergeSort (htrans : ∀ a b c, le a b = true → le b c = true → le a c = true)
    (htotal : ∀ a b, (le a b || le b a) = true) (items : List α) (pivot : α) :
    (items.mergeSort le).filter (isTied le pivot) = items.filter (isTied le pivot) := by
  have htied : (items.filter (isTied le pivot)).Pairwise fun a b => le a b = true := by
    refine List.pairwise_of_forall_mem_list fun a ha b hb => ?_
    have hfirst := (List.mem_filter.mp ha).2
    have hsecond := (List.mem_filter.mp hb).2
    simp only [isTied, Bool.and_eq_true] at hfirst hsecond
    exact htrans _ _ _ hfirst.2 hsecond.1
  have hsub := (List.sublist_mergeSort htrans htotal htied List.filter_sublist).filter
    (isTied le pivot)
  simp only [List.filter_filter, Bool.and_self] at hsub
  have hlength := ((List.mergeSort_perm items le).filter (isTied le pivot)).length_eq
  exact (hsub.eq_of_length hlength.symm).symm

theorem pairwise_mergeSort (htrans : ∀ a b c, le a b = true → le b c = true → le a c = true)
    (htotal : ∀ a b, (le a b || le b a) = true) {ahead : α → α → Prop} {items : List α}
    (h : items.Pairwise ahead) :
    (items.mergeSort le).Pairwise fun first second =>
      le first second = true ∧ (le second first = true → ahead first second) := by
  have hsorted : (items.mergeSort le).Pairwise fun a b => le a b = true :=
    List.pairwise_mergeSort htrans htotal items
  rw [List.pairwise_iff_forall_sublist] at hsorted ⊢
  intro first second hsub
  have hle := hsorted hsub
  refine ⟨hle, fun hback => ?_⟩
  have hself : le first first = true := htrans _ _ _ hle hback
  have hkept := hsub.filter (isTied le first)
  have hpair : [first, second].filter (isTied le first) = [first, second] := by
    simp [isTied, hself, hle, hback]
  rw [hpair, filter_mergeSort htrans htotal] at hkept
  exact List.pairwise_iff_forall_sublist.mp h (hkept.trans List.filter_sublist)

/-- Where the order tells all elements apart, sorting forgets in which order they came. -/
theorem mergeSort_eq_of_perm (htrans : ∀ a b c, le a b = true → le b c = true → le a c = true)
    (htotal : ∀ a b, (le a b || le b a) = true) {first second : List α} (hperm : first.Perm second)
    (hapart : ∀ a ∈ first, ∀ b ∈ first, le a b = true → le b a = true → a = b) :
    first.mergeSort le = second.mergeSort le := by
  have hsorted : ∀ items : List α, (items.mergeSort le).Pairwise fun a b => le a b = true :=
    List.pairwise_mergeSort htrans htotal
  have hsame : (first.mergeSort le).Perm (second.mergeSort le) :=
    (List.mergeSort_perm first le).trans (hperm.trans (List.mergeSort_perm second le).symm)
  apply hsame.eq_of_pairwise _ (hsorted first) (hsorted second)
  intro a b ha hb
  exact hapart a (List.mem_mergeSort.mp ha) b (hperm.mem_iff.mpr (List.mem_mergeSort.mp hb))

/-- An element is among the first ones of an ordered list if few enough are ahead of it. -/
theorem mem_take_iff {ahead : α → α → Bool}
    (hasymm : ∀ a b, ahead a b = true → ahead b a = false) {items : List α}
    (h : items.Pairwise fun first second => ahead first second = true) (count : Nat) (one : α) :
    one ∈ items.take count ↔ one ∈ items ∧ items.countP (ahead · one) < count := by
  induction items generalizing count with
  | nil => simp
  | cons first rest ih =>
      obtain ⟨hfirst, hrest⟩ := List.pairwise_cons.mp h
      cases count with
      | zero => simp
      | succ count =>
          rw [List.take_succ_cons, List.mem_cons, List.mem_cons, ih hrest count]
          by_cases hsame : one = first
          · subst hsame
            have hnone : rest.countP (ahead · one) = 0 := by
              rw [List.countP_eq_zero]
              intro other hother
              simp [hasymm _ _ (hfirst other hother)]
            have hself : ahead one one = false := by
              cases hone : ahead one one with
              | false => rfl
              | true => exact hone ▸ hasymm one one hone
            simp [hself, hnone]
          · by_cases hmem : one ∈ rest
            · simp [hsame, hfirst one hmem, hmem]
            · simp [hsame, hmem]

/-- When a property goes over to everything in front, the elements with it come first. -/
theorem filter_append_filter_not {p : α → Bool} {items : List α}
    (h : items.Pairwise fun first second => p second = true → p first = true) :
    items.filter p ++ items.filter (!p ·) = items := by
  induction items with
  | nil => rfl
  | cons first rest ih =>
      obtain ⟨hfirst, hrest⟩ := List.pairwise_cons.mp h
      cases hp : p first with
      | true =>
          rw [List.filter_cons_of_pos hp, List.filter_cons_of_neg (by simp [hp]), List.cons_append,
            ih hrest]
      | false =>
          have hnone : rest.filter p = [] := by
            refine List.filter_eq_nil_iff.mpr fun other hother hholds => ?_
            rw [hfirst other hother hholds] at hp
            cases hp
          rw [List.filter_cons_of_neg (by simp [hp]), hnone, List.nil_append]
          refine List.filter_eq_self.mpr fun other hother => ?_
          rcases List.mem_cons.mp hother with rfl | hmem
          · simp [hp]
          · simpa using fun hholds => List.filter_eq_nil_iff.mp hnone other hmem hholds

end SourceAtlas.Sorting
