import SourceAtlas.Tree.Basic

/-!
# Entries after edits

An edit changes the entry at its own route and no other one. Routes are compared as wholes, so
nothing is said here about what lies below a route.
-/

namespace SourceAtlas

namespace Edit

/-- What the edit leaves at its route. -/
def entry? : Edit → Option Entry
  | put _ entry => some entry
  | remove _ => none

end Edit

namespace Tree

@[simp] theorem find?_nil (tree : Tree) : tree.find? [] = some .directory := rfl

theorem find?_of_ne_nil (tree : Tree) {route : Route} (h : route ≠ []) :
    tree.find? route = tree.entries.lookup route := by
  cases route with
  | nil => exact absurd rfl h
  | cons name rest => rfl

theorem lookup_setEntry (route place : Route) (entry : Entry) (entries : List (Route × Entry)) :
    (setEntry route entry entries).lookup place =
      if place = route then some entry else entries.lookup place := by
  induction entries with
  | nil =>
      by_cases h : place = route
      · simp [setEntry, h]
      · simp [setEntry, h, List.lookup_cons, beq_false_of_ne h]
  | cons first rest ih =>
      obtain ⟨r, e⟩ := first
      unfold setEntry
      by_cases hr : r = route
      · rw [if_pos hr]
        by_cases h : place = route
        · simp [h]
        · have hne : place ≠ r := hr ▸ h
          simp [List.lookup_cons, h, beq_false_of_ne h, beq_false_of_ne hne]
      · rw [if_neg hr, List.lookup_cons, List.lookup_cons, ih]
        by_cases h : place = r
        · have hne : place ≠ route := h ▸ hr
          simp [h, hr]
        · simp [beq_false_of_ne h]

theorem lookup_filter_ne (route place : Route) (entries : List (Route × Entry)) :
    (entries.filter fun e => e.1 != route).lookup place =
      if place = route then none else entries.lookup place := by
  induction entries with
  | nil => simp
  | cons first rest ih =>
      obtain ⟨r, e⟩ := first
      by_cases hr : r = route
      · rw [List.filter_cons_of_neg (by simp [hr]), ih]
        by_cases h : place = route
        · simp [h]
        · have hne : place ≠ r := hr ▸ h
          simp [h, List.lookup_cons, beq_false_of_ne hne]
      · rw [List.filter_cons_of_pos (by simp [hr]), List.lookup_cons, List.lookup_cons, ih]
        by_cases h : place = r
        · have hne : place ≠ route := h ▸ hr
          simp [h, hr]
        · simp [beq_false_of_ne h]

theorem find?_apply (tree : Tree) (edit : Edit) {place : Route} (h : place ≠ []) :
    (tree.apply edit).find? place =
      if place = edit.route then edit.entry? else tree.find? place := by
  rw [find?_of_ne_nil _ h, find?_of_ne_nil _ h]
  cases edit with
  | put route entry => exact lookup_setEntry route place entry tree.entries
  | remove route => exact lookup_filter_ne route place tree.entries

theorem find?_apply_of_ne (tree : Tree) {edit : Edit} {place : Route} (h : place ≠ edit.route) :
    (tree.apply edit).find? place = tree.find? place := by
  cases place with
  | nil => rfl
  | cons name rest => rw [find?_apply _ _ (List.cons_ne_nil _ _), if_neg h]

theorem find?_apply_of_route (tree : Tree) (edit : Edit) (h : edit.route ≠ []) (place : Route) :
    (tree.apply edit).find? place =
      if place = edit.route then edit.entry? else tree.find? place := by
  by_cases hplace : place = []
  · subst hplace
    rw [if_neg h.symm]
    rfl
  · exact find?_apply tree edit hplace

theorem find?_put (tree : Tree) {route : Route} (h : route ≠ []) (entry : Entry)
    (place : Route) :
    (tree.apply (.put route entry)).find? place =
      if place = route then some entry else tree.find? place :=
  find?_apply_of_route tree (.put route entry) h place

theorem find?_remove (tree : Tree) {route : Route} (h : route ≠ []) (place : Route) :
    (tree.apply (.remove route)).find? place =
      if place = route then none else tree.find? place :=
  find?_apply_of_route tree (.remove route) h place

@[simp] theorem applyAll_nil (tree : Tree) : tree.applyAll [] = tree := rfl

@[simp] theorem applyAll_cons (tree : Tree) (edit : Edit) (edits : List Edit) :
    tree.applyAll (edit :: edits) = (tree.apply edit).applyAll edits := rfl

theorem applyAll_append (tree : Tree) (first second : List Edit) :
    tree.applyAll (first ++ second) = (tree.applyAll first).applyAll second :=
  List.foldl_append ..

/-- Edits account for everything that changes. -/
theorem find?_applyAll_of_forall_ne {edits : List Edit} {place : Route} (tree : Tree)
    (h : ∀ edit ∈ edits, edit.route ≠ place) :
    (tree.applyAll edits).find? place = tree.find? place := by
  induction edits generalizing tree with
  | nil => rfl
  | cons edit edits ih =>
      have hrest : ∀ e ∈ edits, e.route ≠ place := fun e he => h e (List.mem_cons_of_mem _ he)
      have hfirst : place ≠ edit.route := (h edit List.mem_cons_self).symm
      rw [applyAll_cons, ih (tree.apply edit) hrest, find?_apply_of_ne tree hfirst]

end Tree

end SourceAtlas
