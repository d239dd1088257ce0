import SourceAtlas.Text.Newline

/-!
# Translated line breaks

Line breaks are translated part by part, unless a cut goes through a `\r\n`.
-/

namespace SourceAtlas.Text

theorem translateNewlines_return {rest : List Char} (h : rest.head? ≠ some '\n') :
    translateNewlines ('\r' :: rest) = '\n' :: translateNewlines rest := by
  cases rest with
  | nil => rfl
  | cons c rest =>
      have hc : c ≠ '\n' := fun hsame => h (by rw [hsame]; rfl)
      rw [translateNewlines]
      intro other hother
      cases hother
      exact hc rfl

theorem translateNewlines_cons {c : Char} (h : c ≠ '\r') (rest : List Char) :
    translateNewlines (c :: rest) = c :: translateNewlines rest := by
  rw [translateNewlines]
  · exact fun _ hc _ => h hc
  · exact h

theorem head?_ne_feed {rest : List Char} (h : ∀ behind, rest = '\n' :: behind → False) :
    rest.head? ≠ some '\n' := by
  intro hhead
  cases rest with
  | nil => cases hhead
  | cons c behind =>
      cases hhead
      exact h behind rfl

theorem translateNewlines_append {front back : List Char}
    (h : front.getLast? ≠ some '\r' ∨ back.head? ≠ some '\n') :
    translateNewlines (front ++ back) = translateNewlines front ++ translateNewlines back := by
  induction front using translateNewlines.induct with
  | case1 => rfl
  | case2 rest ih =>
      have hrest : rest.getLast? ≠ some '\r' ∨ back.head? ≠ some '\n' := by
        cases rest with
        | nil => exact .inl (by simp)
        | cons c rest => simpa using h
      rw [List.cons_append, List.cons_append, translateNewlines, translateNewlines, ih hrest,
        List.cons_append]
  | case3 rest hne ih =>
      cases rest with
      | nil =>
          have hback : back.head? ≠ some '\n' := h.resolve_left (by simp)
          rw [List.singleton_append, translateNewlines_return hback]
          rfl
      | cons c rest =>
          have hc := head?_ne_feed hne
          rw [List.cons_append, translateNewlines_return hc,
            translateNewlines_return (by simpa using hc), ih (by simpa using h), List.cons_append]
  | case4 c rest hpair hc ih =>
      have hrest : rest.getLast? ≠ some '\r' ∨ back.head? ≠ some '\n' := by
        cases rest with
        | nil => exact .inl (by simp)
        | cons d rest => simpa using h
      rw [List.cons_append, translateNewlines_cons hc, translateNewlines_cons hc, ih hrest,
        List.cons_append]

/-- Without a `\r` there is nothing to translate. -/
theorem translateNewlines_append_of_not_mem {front : List Char} (h : '\r' ∉ front)
    (back : List Char) : translateNewlines (front ++ back) = front ++ translateNewlines back := by
  induction front with
  | nil => rfl
  | cons c front ih =>
      have hc : c ≠ '\r' := fun hsame => h (hsame ▸ List.mem_cons_self)
      rw [List.cons_append, translateNewlines_cons hc,
        ih fun hmem => h (List.mem_cons_of_mem _ hmem), List.cons_append]

theorem head?_translateNewlines (c : Char) (rest : List Char) :
    (translateNewlines (c :: rest)).head? = some (if c = '\r' then '\n' else c) := by
  by_cases hc : c = '\r'
  · subst hc
    cases rest with
    | nil => rfl
    | cons d rest =>
        by_cases hd : d = '\n'
        · subst hd
          rfl
        · rw [translateNewlines_return (by simpa using hd)]
          rfl
  · rw [translateNewlines_cons hc, if_neg hc]
    rfl

/-- What stands in a translated text in front of its first line feed stands in the text itself. -/
theorem exists_of_translateNewlines_eq {front back text : List Char} (hfront : '\n' ∉ front)
    (h : translateNewlines text = front ++ back) :
    ∃ rest, text = front ++ rest ∧ translateNewlines rest = back := by
  induction front generalizing text with
  | nil => exact ⟨text, rfl, h⟩
  | cons c front ih =>
      cases text with
      | nil => cases h
      | cons d text =>
          have hhead := head?_translateNewlines d text
          rw [h, List.cons_append, List.head?_cons, Option.some.injEq] at hhead
          by_cases hd : d = '\r'
          · rw [if_pos hd] at hhead
            exact absurd (hhead ▸ List.mem_cons_self) hfront
          · rw [if_neg hd] at hhead
            subst hhead
            rw [translateNewlines_cons hd, List.cons_append, List.cons.injEq] at h
            obtain ⟨rest, rfl, hrest⟩ := ih (fun hmem => hfront (List.mem_cons_of_mem _ hmem)) h.2
            exact ⟨rest, rfl, hrest⟩

/-- A line ending is translated to one line break. -/
theorem translateNewlines_lineEnding (text back : List Char) :
    translateNewlines (lineEnding text ++ back) = '\n' :: translateNewlines back := by
  unfold lineEnding
  split
  · rfl
  · rw [List.singleton_append, translateNewlines_cons (by decide)]

end SourceAtlas.Text
