/-!
# Splitting at a character

A text with `n` separators has `n + 1` parts, and joining the parts gives the text back.
-/

namespace SourceAtlas.Text

/-- Put one character in front of a list of parts. -/
def splitStep (sep c : Char) (parts : List (List Char)) : List (List Char) :=
  if c = sep then [] :: parts
  else match parts with
    | [] => [[c]]
    | part :: rest => (c :: part) :: rest

def split (sep : Char) (text : List Char) : List (List Char) :=
  text.foldr (splitStep sep) [[]]

def join (sep : Char) : List (List Char) → List Char
  | [] => []
  | [part] => part
  | part :: rest => part ++ sep :: join sep rest

@[simp] theorem split_nil (sep : Char) : split sep [] = [[]] := rfl

@[simp] theorem split_cons (sep c : Char) (text : List Char) :
    split sep (c :: text) = splitStep sep c (split sep text) := rfl

theorem split_ne_nil (sep : Char) (text : List Char) : split sep text ≠ [] := by
  cases text with
  | nil => simp
  | cons c text =>
      rw [split_cons]; unfold splitStep
      split
      · simp
      · split <;> simp

theorem join_split (sep : Char) (text : List Char) : join sep (split sep text) = text := by
  induction text with
  | nil => rfl
  | cons c text ih =>
      rw [split_cons]; unfold splitStep
      have hne := split_ne_nil sep text
      match h : split sep text with
      | [] => exact absurd h hne
      | [part] => rw [h] at ih; by_cases hc : c = sep <;> simp_all [join]
      | part :: next :: rest => rw [h] at ih; by_cases hc : c = sep <;> simp_all [join]

theorem join_cons (sep : Char) (part : List Char) (parts : List (List Char)) :
    join sep (part :: parts) = part ++ parts.flatMap (sep :: ·) := by
  induction parts generalizing part with
  | nil => exact (List.append_nil part).symm
  | cons next parts ih =>
      rw [join, ih, List.flatMap_cons, List.cons_append]
      exact List.cons_ne_nil _ _

theorem forall_mem_join {sep : Char} {parts : List (List Char)} {p : Char → Prop} (hsep : p sep)
    (h : ∀ part ∈ parts, ∀ c ∈ part, p c) : ∀ c ∈ join sep parts, p c := by
  cases parts with
  | nil => exact fun c hc => nomatch hc
  | cons part parts =>
      rw [join_cons]
      simp only [List.mem_append, List.mem_flatMap, List.mem_cons]
      rintro c (hc | ⟨other, hother, rfl | hc⟩)
      · exact h part List.mem_cons_self c hc
      · exact hsep
      · exact h other (List.mem_cons_of_mem _ hother) c hc

def splitString (sep : Char) (text : String) : List String :=
  (split sep text.toList).map String.ofList

end SourceAtlas.Text
