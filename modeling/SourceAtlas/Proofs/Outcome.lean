/-!
# Outcomes

A chain of steps gives a result exactly if every step does, and its failure is that of the first
step that fails.
-/

namespace SourceAtlas.Outcome

variable {ε ε' α β : Type} {x : Except ε α} {f : α → Except ε β}

theorem bind_eq_ok_iff {b : β} : (x >>= f) = .ok b ↔ ∃ a, x = .ok a ∧ f a = .ok b := by
  cases x with
  | error e => simp [bind, Except.bind]
  | ok a => simp [bind, Except.bind]

theorem bind_eq_error_iff {e : ε} :
    (x >>= f) = .error e ↔ x = .error e ∨ ∃ a, x = .ok a ∧ f a = .error e := by
  cases x with
  | error e' => simp [bind, Except.bind]
  | ok a => simp [bind, Except.bind]

@[simp] theorem mapError_ok (g : ε → ε') (a : α) : (Except.ok a).mapError g = .ok a := rfl

@[simp] theorem mapError_error (g : ε → ε') (e : ε) :
    (Except.error e : Except ε α).mapError g = .error (g e) := rfl

theorem mapError_eq_ok_iff {g : ε → ε'} {a : α} : x.mapError g = .ok a ↔ x = .ok a := by
  cases x with
  | error e => simp
  | ok b => simp

theorem mapError_eq_error_iff {g : ε → ε'} {e : ε'} :
    x.mapError g = .error e ↔ ∃ cause, x = .error cause ∧ g cause = e := by
  cases x with
  | error cause => simp
  | ok a => simp

/-- The first item that fails decides the failure of a traversal. -/
theorem exists_of_mapM_eq_error {items : List α} {e : ε} (h : items.mapM f = .error e) :
    ∃ item ∈ items, f item = .error e := by
  induction items with
  | nil => cases h
  | cons item rest ih =>
      rw [List.mapM_cons, bind_eq_error_iff] at h
      rcases h with hitem | ⟨b, -, h⟩
      · exact ⟨item, List.mem_cons_self, hitem⟩
      rw [bind_eq_error_iff] at h
      rcases h with hrest | ⟨bs, -, h⟩
      · obtain ⟨other, hmem, hother⟩ := ih hrest
        exact ⟨other, List.mem_cons_of_mem _ hmem, hother⟩
      · cases h

end SourceAtlas.Outcome
