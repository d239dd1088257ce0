import Mathlib.Data.List.Induction
import Mathlib.Data.List.Perm.Basic
import SourceAtlas.Grouping

/-!
# Classes of a list

The members of a list that share a key are a class. The classes come in the order in which their
keys are met first, and together they are the list, each member in one of them.
-/

namespace SourceAtlas

variable {α κ : Type} [DecidableEq κ]

theorem pairwise_distinctFrom [DecidableEq α] (seen xs : List α) :
    (distinctFrom seen xs).Pairwise fun a b => xs.idxOf a < xs.idxOf b := by
  induction xs generalizing seen with
  | nil => exact List.Pairwise.nil
  | cons x xs ih =>
      -- Behind `x` everything else is met one place later.
      have hbehind : ∀ ys : List α, x ∉ ys → (ys.Pairwise fun a b => xs.idxOf a < xs.idxOf b) →
          ys.Pairwise fun a b => (x :: xs).idxOf a < (x :: xs).idxOf b := by
        intro ys hx hys
        refine hys.imp_of_mem fun {a b} ha hb hlt => ?_
        have hxa : x ≠ a := fun hsame => hx (hsame ▸ ha)
        have hxb : x ≠ b := fun hsame => hx (hsame ▸ hb)
        rw [List.idxOf_cons_ne _ hxa, List.idxOf_cons_ne _ hxb]
        omega
      unfold distinctFrom
      by_cases hseen : x ∈ seen
      · rw [if_pos hseen]
        exact hbehind _ (fun hmem => (mem_distinctFrom.mp hmem).2 hseen) (ih seen)
      · rw [if_neg hseen, List.pairwise_cons]
        have hx : x ∉ distinctFrom (x :: seen) xs := fun hmem =>
          (mem_distinctFrom.mp hmem).2 List.mem_cons_self
        refine ⟨fun b hb => ?_, hbehind _ hx (ih _)⟩
        have hxb : x ≠ b := fun hsame => hx (hsame ▸ hb)
        rw [List.idxOf_cons_self, List.idxOf_cons_ne _ hxb]
        omega

theorem pairwise_distinct [DecidableEq α] (xs : List α) :
    (distinct xs).Pairwise fun a b => xs.idxOf a < xs.idxOf b := pairwise_distinctFrom [] xs

theorem nodup_distinctFrom [DecidableEq α] (seen xs : List α) : (distinctFrom seen xs).Nodup :=
  (pairwise_distinctFrom seen xs).imp fun hlt hsame => by
    rw [hsame] at hlt
    exact Nat.lt_irrefl _ hlt

theorem nodup_distinct [DecidableEq α] (xs : List α) : (distinct xs).Nodup :=
  nodup_distinctFrom [] xs

/-- Which elements are left out depends on what was met, not on the order in which it was. -/
theorem distinctFrom_congr [DecidableEq α] {seen met : List α} (xs : List α)
    (h : ∀ x, x ∈ seen ↔ x ∈ met) : distinctFrom seen xs = distinctFrom met xs := by
  induction xs generalizing seen met with
  | nil => rfl
  | cons x xs ih =>
      have hcons : ∀ y, y ∈ x :: seen ↔ y ∈ x :: met := fun y => by
        rw [List.mem_cons, List.mem_cons, h y]
      unfold distinctFrom
      simp only [h x, ih h, ih hcons]

theorem distinctFrom_append_singleton [DecidableEq α] (seen xs : List α) (x : α) :
    distinctFrom seen (xs ++ [x]) =
      if x ∈ seen ∨ x ∈ xs then distinctFrom seen xs else distinctFrom seen xs ++ [x] := by
  induction xs generalizing seen with
  | nil =>
      by_cases hx : x ∈ seen
      · simp [distinctFrom, hx]
      · simp [distinctFrom, hx]
  | cons y ys ih =>
      rw [List.cons_append, distinctFrom, distinctFrom]
      by_cases hy : y ∈ seen
      · rw [if_pos hy, if_pos hy, ih]
        by_cases hx : x = y
        · simp [hx, hy]
        · simp [hx]
      · rw [if_neg hy, if_neg hy, ih]
        simp only [List.mem_cons, or_left_comm, or_assoc]
        split <;> rfl

theorem distinct_append_singleton [DecidableEq α] (xs : List α) (x : α) :
    distinct (xs ++ [x]) = if x ∈ xs then distinct xs else distinct xs ++ [x] := by
  unfold distinct
  rw [distinctFrom_append_singleton]
  simp

/-- Of two values, the earlier one is met in a front part of the list without the later one. -/
theorem pairwise_distinct_filterMap (f : α → Option κ) (xs : List α) :
    (distinct (xs.filterMap f)).Pairwise fun a b => ∃ front back, xs = front ++ back ∧
      (∃ x ∈ front, f x = some a) ∧ ∀ x ∈ front, f x ≠ some b := by
  induction xs using List.reverseRecOn with
  | nil => exact List.Pairwise.nil
  | append_singleton xs x ih =>
      have hlonger := ih.imp fun {a b} ⟨front, back, hxs, hmet⟩ =>
        (⟨front, back ++ [x], by rw [hxs, List.append_assoc], hmet⟩ :
          ∃ front back, xs ++ [x] = front ++ back ∧
            (∃ x ∈ front, f x = some a) ∧ ∀ x ∈ front, f x ≠ some b)
      rw [List.filterMap_append]
      cases hx : f x with
      | none => rwa [List.filterMap_cons_none hx, List.filterMap_nil, List.append_nil]
      | some b =>
          rw [List.filterMap_cons_some hx, List.filterMap_nil, distinct_append_singleton]
          split
          · exact hlonger
          · next hnew =>
              -- The value of `x` is new, so all of `xs` is in front of it.
              rw [List.pairwise_append]
              refine ⟨hlonger, List.pairwise_singleton _ _, fun a ha other hother => ?_⟩
              obtain rfl := List.mem_singleton.mp hother
              refine ⟨xs, [x], rfl, List.mem_filterMap.mp (mem_distinct.mp ha), ?_⟩
              exact fun y hy hsame => hnew (List.mem_filterMap.mpr ⟨y, hy, hsame⟩)

theorem distinctFrom_eq_self [DecidableEq α] {seen xs : List α} (h : xs.Nodup)
    (hseen : ∀ x ∈ xs, x ∉ seen) : distinctFrom seen xs = xs := by
  induction xs generalizing seen with
  | nil => rfl
  | cons x xs ih =>
      obtain ⟨hx, hxs⟩ := List.nodup_cons.mp h
      rw [distinctFrom, if_neg (hseen x List.mem_cons_self), ih hxs]
      intro y hy hmem
      rcases List.mem_cons.mp hmem with rfl | hmem
      · exact hx hy
      · exact hseen y (List.mem_cons_of_mem x hy) hmem

theorem distinct_eq_self [DecidableEq α] {xs : List α} (h : xs.Nodup) : distinct xs = xs :=
  distinctFrom_eq_self h fun _ _ => List.not_mem_nil

theorem find?_distinctFrom [DecidableEq α] {p : α → Bool} {seen : List α} (xs : List α)
    (hseen : ∀ x ∈ seen, p x = false) : (distinctFrom seen xs).find? p = xs.find? p := by
  induction xs generalizing seen with
  | nil => rfl
  | cons x xs ih =>
      unfold distinctFrom
      by_cases hx : x ∈ seen
      · rw [if_pos hx, ih hseen, List.find?_cons_of_neg (by simp [hseen x hx])]
      · rw [if_neg hx]
        cases hp : p x with
        | true => rw [List.find?_cons_of_pos hp, List.find?_cons_of_pos hp]
        | false =>
            rw [List.find?_cons_of_neg (by simp [hp]), List.find?_cons_of_neg (by simp [hp])]
            refine ih fun y hy => ?_
            rcases List.mem_cons.mp hy with rfl | hy
            · exact hp
            · exact hseen y hy

/-- Leaving repetitions out does not change which element is found first. -/
theorem find?_distinct [DecidableEq α] (p : α → Bool) (xs : List α) :
    (distinct xs).find? p = xs.find? p := find?_distinctFrom xs nofun

/-- The members of a list by key, without the keys. -/
def classes (key : α → κ) (xs : List α) : List (List α) := (groupByKey key xs).map Prod.snd

variable {key : α → κ} {xs : List α}

theorem classes_eq (key : α → κ) (xs : List α) :
    classes key xs = (distinct (xs.map key)).map fun k => xs.filter fun x => key x = k := by
  unfold classes groupByKey
  rw [List.map_map]
  rfl

theorem mem_classes {ys : List α} :
    ys ∈ classes key xs ↔ ∃ x ∈ xs, ys = xs.filter fun y => key y = key x := by
  rw [classes_eq, List.mem_map]
  constructor
  · rintro ⟨k, hk, rfl⟩
    obtain ⟨x, hx, rfl⟩ := List.mem_map.mp (mem_distinct.mp hk)
    exact ⟨x, hx, rfl⟩
  · rintro ⟨x, hx, rfl⟩
    exact ⟨key x, mem_distinct.mpr (List.mem_map_of_mem hx), rfl⟩

/-- Selecting by each of several keys selects every member whose key is among them. -/
theorem flatMap_filter_perm {keys : List κ} (hnodup : keys.Nodup) (key : α → κ)
    (hkeys : ∀ x ∈ xs, key x ∈ keys) :
    (keys.flatMap fun k => xs.filter fun x => key x = k).Perm xs := by
  induction keys generalizing xs with
  | nil =>
      have hnil : xs = [] := List.eq_nil_iff_forall_not_mem.mpr fun x hx =>
        List.not_mem_nil (hkeys x hx)
      rw [hnil]
      exact List.Perm.refl _
  | cons k keys ih =>
      obtain ⟨hk, hrest⟩ := List.nodup_cons.mp hnodup
      have hothers : (keys.flatMap fun other => xs.filter fun x => key x = other) =
          keys.flatMap fun other =>
            (xs.filter fun x => !decide (key x = k)).filter fun x => key x = other := by
        refine List.flatMap_congr fun other hother => ?_
        rw [List.filter_filter]
        refine List.filter_congr fun x _ => ?_
        have hne : other ≠ k := fun hsame => hk (hsame ▸ hother)
        by_cases hx : key x = other
        · simp [hx, hne]
        · simp [hx]
      rw [List.flatMap_cons, hothers]
      refine ((ih hrest fun x hx => ?_).append_left _).trans (List.filter_append_perm _ xs)
      obtain ⟨hmem, hne⟩ := List.mem_filter.mp hx
      have hne : key x ≠ k := by simpa using hne
      exact (List.mem_cons.mp (hkeys x hmem)).resolve_left hne

theorem flatten_classes_perm (key : α → κ) (xs : List α) : (classes key xs).flatten.Perm xs := by
  rw [classes_eq, ← List.flatMap_def]
  exact flatMap_filter_perm (nodup_distinct _) key fun x hx =>
    mem_distinct.mpr (List.mem_map_of_mem hx)

/-- The key of every member of the first list is met before that of every member of the second. -/
def MetBefore (key : α → κ) (xs first second : List α) : Prop :=
  ∀ x ∈ first, ∀ y ∈ second, (xs.map key).idxOf (key x) < (xs.map key).idxOf (key y)

theorem pairwise_classes (key : α → κ) (xs : List α) :
    (classes key xs).Pairwise (MetBefore key xs) := by
  rw [classes_eq, List.pairwise_map]
  refine (pairwise_distinct (xs.map key)).imp fun {k other} hlt x hx y hy => ?_
  have hxk : key x = k := by simpa using (List.mem_filter.mp hx).2
  have hyk : key y = other := by simpa using (List.mem_filter.mp hy).2
  rw [hxk, hyk]
  exact hlt

end SourceAtlas
