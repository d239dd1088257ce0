/-!
# Grouping

Distinct values in the order of their first occurrence, and the members that share a key.
-/

namespace SourceAtlas

/-- Keep the first occurrence of each element; `seen` holds the ones already met. -/
def distinctFrom {α : Type} [DecidableEq α] (seen : List α) : List α → List α
  | [] => []
  | x :: rest => if x ∈ seen then distinctFrom seen rest else x :: distinctFrom (x :: seen) rest

/-- The distinct elements in the order of their first occurrence. -/
def distinct {α : Type} [DecidableEq α] (xs : List α) : List α := distinctFrom [] xs

/-- The members of a list by key, keys in the order of their first occurrence. -/
def groupByKey {α κ : Type} [DecidableEq κ] (key : α → κ) (xs : List α) : List (κ × List α) :=
  (distinct (xs.map key)).map fun k => (k, xs.filter fun x => key x = k)

theorem mem_distinctFrom {α : Type} [DecidableEq α] {x : α} {seen xs : List α} :
    x ∈ distinctFrom seen xs ↔ x ∈ xs ∧ x ∉ seen := by
  induction xs generalizing seen with
  | nil => simp [distinctFrom]
  | cons y xs ih =>
      unfold distinctFrom
      by_cases hy : y ∈ seen
      · rw [if_pos hy, ih, List.mem_cons]
        constructor
        · exact fun ⟨hx, hs⟩ => ⟨Or.inr hx, hs⟩
        · exact fun ⟨hx, hs⟩ => ⟨hx.resolve_left fun h => hs (h ▸ hy), hs⟩
      · rw [if_neg hy, List.mem_cons, ih, List.mem_cons, List.mem_cons]
        by_cases hx : x = y
        · subst hx; simp [hy]
        · simp [hx]

theorem mem_distinct {α : Type} [DecidableEq α] {x : α} {xs : List α} :
    x ∈ distinct xs ↔ x ∈ xs := by
  simp [distinct, mem_distinctFrom]

end SourceAtlas
