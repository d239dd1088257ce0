import SourceAtlas.Text.Search

/-!
# Parts of a text

A search finds a text exactly where it stands in another one. Texts that are joined by a separator
are told apart again if none of them holds the first character of the separator.
-/

namespace SourceAtlas.Text

variable {needle text sep part : List Char} {c : Char}

theorem occursIn_iff : occursIn needle text = true ↔ needle <:+: text := by
  induction text with
  | nil => rw [occursIn, List.isEmpty_iff, List.infix_nil]
  | cons c rest ih =>
      have hstart : (dropStart? needle (c :: rest)).isSome = true ↔ needle <+: c :: rest := by
        rw [Option.isSome_iff_exists]
        exact exists_congr fun behind => dropStart?_eq_some_iff.trans eq_comm
      rw [occursIn, Bool.or_eq_true, hstart, ih, List.infix_cons_iff]

theorem hasPart_iff {text part : String} : hasPart text part = true ↔ part.toList <:+: text.toList :=
  occursIn_iff

/-- Put a character in front of the first of some parts. -/
def consFirst (c : Char) : List (List Char) → List (List Char)
  | [] => [[c]]
  | part :: parts => (c :: part) :: parts

/-- The parts of a text between the places of a separator, looked for from the left. So many
characters in front belong to a place that is found already. -/
def partsFrom (sep : List Char) : Nat → List Char → List (List Char)
  | _, [] => [[]]
  | found + 1, _ :: rest => partsFrom sep found rest
  | 0, c :: rest =>
      if (dropStart? sep (c :: rest)).isSome then [] :: partsFrom sep (sep.length - 1) rest
      else consFirst c (partsFrom sep 0 rest)

/-- The parts of a string between the places of a separator. -/
def partsBetween (sep text : String) : List String :=
  (partsFrom sep.toList 0 text.toList).map String.ofList

theorem partsFrom_length (sep found rest : List Char) :
    partsFrom sep found.length (found ++ rest) = partsFrom sep 0 rest := by
  induction found with
  | nil => rfl
  | cons c found ih => exact ih

section First

variable {first : Char} {others : List Char}

theorem partsFrom_cons_of_ne (h : c ≠ first) (rest : List Char) :
    partsFrom (first :: others) 0 (c :: rest) =
      consFirst c (partsFrom (first :: others) 0 rest) := by
  rw [partsFrom, dropStart?, if_neg h]
  rfl

theorem partsFrom_sep (first : Char) (others rest : List Char) :
    partsFrom (first :: others) 0 (first :: others ++ rest) =
      [] :: partsFrom (first :: others) 0 rest := by
  have hfound : dropStart? (first :: others) (first :: (others ++ rest)) = some rest :=
    dropStart?_eq_some_iff.mpr rfl
  rw [List.cons_append, partsFrom, hfound]
  exact congrArg _ (partsFrom_length _ others rest)

theorem partsFrom_append_sep (h : first ∉ part) (rest : List Char) :
    partsFrom (first :: others) 0 (part ++ (first :: others ++ rest)) =
      part :: partsFrom (first :: others) 0 rest := by
  induction part with
  | nil => exact partsFrom_sep first others rest
  | cons c part ih =>
      have hne : c ≠ first := fun hsame => h (hsame ▸ List.mem_cons_self)
      rw [List.cons_append, partsFrom_cons_of_ne hne, ih fun hmem => h (List.mem_cons_of_mem _ hmem)]
      rfl

theorem partsFrom_of_not_mem (h : first ∉ part) : partsFrom (first :: others) 0 part = [part] := by
  induction part with
  | nil => rfl
  | cons c part ih =>
      have hne : c ≠ first := fun hsame => h (hsame ▸ List.mem_cons_self)
      rw [partsFrom_cons_of_ne hne, ih fun hmem => h (List.mem_cons_of_mem _ hmem)]
      rfl

/-- Joined parts without the first character of the separator are told apart again. -/
theorem partsFrom_intercalate {parts : List (List Char)} (hne : parts ≠ [])
    (h : ∀ part ∈ parts, first ∉ part) :
    partsFrom (first :: others) 0 ((first :: others).intercalate parts) = parts := by
  induction parts with
  | nil => exact absurd rfl hne
  | cons part rest ih =>
      have hpart := h part List.mem_cons_self
      cases rest with
      | nil => rw [List.intercalate_singleton, partsFrom_of_not_mem hpart]
      | cons next rest =>
          have hrest := ih (List.cons_ne_nil _ _) fun other hother =>
            h other (List.mem_cons_of_mem _ hother)
          rw [List.intercalate_cons_cons, List.append_assoc, partsFrom_append_sep hpart, hrest]

end First

theorem partsBetween_intercalate {sep : String} {parts : List String} {first : Char}
    (hsep : sep.toList.head? = some first) (hne : parts ≠ [])
    (h : ∀ part ∈ parts, first ∉ part.toList) :
    partsBetween sep (sep.intercalate parts) = parts := by
  obtain ⟨others, hchars⟩ : ∃ others, sep.toList = first :: others := List.head?_eq_some_iff.mp hsep
  have hlists : ∀ part ∈ parts.map String.toList, first ∉ part := by
    intro part hpart
    obtain ⟨text, htext, rfl⟩ := List.mem_map.mp hpart
    exact h text htext
  unfold partsBetween
  rw [String.toList_intercalate, hchars, partsFrom_intercalate (by simpa using hne) hlists,
    List.map_map]
  have hid : String.ofList ∘ String.toList = id := funext fun text => String.ofList_toList
  rw [hid, List.map_id]

end SourceAtlas.Text
