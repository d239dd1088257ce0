import Mathlib.Data.List.Basic
import SourceAtlas.Proofs.Path.Name
import SourceAtlas.Proofs.Path.Segment

/-!
# Paths put together from segments

A path of segments that are no steps is in normal form, and its directory is the path of all of them
but the last.
-/

namespace SourceAtlas

namespace Text

variable {sep : Char} {parts : List (List Char)}

theorem split_join (hne : parts ≠ []) (h : ∀ part ∈ parts, sep ∉ part) :
    split sep (join sep parts) = parts := by
  induction parts with
  | nil => exact absurd rfl hne
  | cons first rest ih =>
      have hfirst := h first List.mem_cons_self
      cases rest with
      | nil => exact split_of_not_mem hfirst
      | cons next rest =>
          rw [join, split_append_sep hfirst,
            ih (List.cons_ne_nil _ _) fun part hpart => h part (List.mem_cons_of_mem _ hpart)]
          exact List.cons_ne_nil _ _

theorem join_append_singleton (hne : parts ≠ []) (last : List Char) :
    join sep (parts ++ [last]) = join sep parts ++ sep :: last := by
  obtain ⟨first, rest, rfl⟩ := List.exists_cons_of_ne_nil hne
  rw [List.cons_append, join_cons, join_cons, List.flatMap_append, List.append_assoc]
  simp

theorem join_append (front : List (List Char)) (last more : List Char) :
    join sep (front ++ [last]) ++ more = join sep (front ++ [last ++ more]) := by
  by_cases hne : front = []
  · subst hne
    rfl
  · rw [join_append_singleton hne, join_append_singleton hne, List.append_assoc, List.cons_append]

end Text

namespace Path

open Text

variable {dirs : List (List Char)} {name : List Char}

/-- A segment of a path that is not empty and no step to the directory itself or its parent. -/
structure IsSegment (name : List Char) : Prop where
  ne_nil : name ≠ []
  ne_dot : name ≠ ['.']
  ne_up : name ≠ ['.', '.']
  slash : '/' ∉ name

theorem IsSegment.head (h : IsSegment name) : ∃ c rest, name = c :: rest ∧ c ≠ '/' := by
  obtain ⟨c, rest, rfl⟩ := List.exists_cons_of_ne_nil h.ne_nil
  exact ⟨c, rest, rfl, fun hc => h.slash (hc ▸ List.mem_cons_self)⟩

theorem foldl_pushSegment (rooted : Bool) (h : ∀ dir ∈ dirs, IsSegment dir)
    (done : List (List Char)) :
    dirs.foldl (pushSegment rooted) done = dirs.reverse ++ done := by
  induction dirs generalizing done with
  | nil => rfl
  | cons dir dirs ih =>
      have hdir := h dir List.mem_cons_self
      have hpush : pushSegment rooted done dir = dir :: done := by
        simp [pushSegment, hdir.ne_nil, hdir.ne_dot, hdir.ne_up]
      rw [List.foldl_cons, hpush, ih fun other hother => h other (List.mem_cons_of_mem _ hother)]
      simp

/-- Paths of segments are equal only if the segments are. -/
theorem eq_of_join_eq {others : List (List Char)} (hne : dirs ≠ []) (hothers : others ≠ [])
    (h : ∀ dir ∈ dirs, IsSegment dir) (hsegments : ∀ dir ∈ others, IsSegment dir)
    (hsame : join '/' dirs = join '/' others) : dirs = others := by
  rw [← split_join hne fun dir hdir => (h dir hdir).slash, hsame,
    split_join hothers fun dir hdir => (hsegments dir hdir).slash]

theorem exists_join_eq_cons (hne : dirs ≠ []) (h : ∀ dir ∈ dirs, IsSegment dir) :
    ∃ c rest, join '/' dirs = c :: rest ∧ c ≠ '/' := by
  obtain ⟨first, rest, rfl⟩ := List.exists_cons_of_ne_nil hne
  obtain ⟨c, more, rfl, hc⟩ := (h first List.mem_cons_self).head
  exact ⟨c, _, join_cons _ _ _, hc⟩

/-- A path of segments is in normal form. -/
theorem normalize_join (hne : dirs ≠ []) (h : ∀ dir ∈ dirs, IsSegment dir) :
    normalize (join '/' dirs) = join '/' dirs := by
  obtain ⟨c, rest, hjoin, hc⟩ := exists_join_eq_cons hne h
  have hslashes : leadingSlashes (join '/' dirs) = [] := by
    rw [hjoin]
    unfold leadingSlashes
    split <;> simp_all
  unfold normalize
  dsimp only
  rw [hslashes, split_join hne fun dir hdir => (h dir hdir).slash, foldl_pushSegment _ h,
    List.append_nil, List.reverse_reverse, List.nil_append, hjoin]
  rfl

theorem exists_join_eq_append (hne : dirs ≠ []) (h : ∀ dir ∈ dirs, IsSegment dir) :
    ∃ front c, join '/' dirs = front ++ [c] ∧ c ≠ '/' := by
  obtain ⟨init, last, rfl⟩ := (List.eq_nil_or_concat' dirs).resolve_left hne
  have hlast := h last (by simp)
  obtain ⟨start, c, rfl⟩ := (List.eq_nil_or_concat' last).resolve_left hlast.ne_nil
  have hc : c ≠ '/' := fun hsame => hlast.slash (by simp [hsame])
  by_cases hinit : init = []
  · subst hinit
    exact ⟨start, c, rfl, hc⟩
  · rw [join_append_singleton hinit]
    exact ⟨join '/' init ++ '/' :: start, c, by simp, hc⟩

theorem lastSegment_join (dirs : List (List Char)) (hname : '/' ∉ name) :
    lastSegment (join '/' (dirs ++ [name])) = name := by
  by_cases hne : dirs = []
  · subst hne
    exact lastSegment_of_not_mem hname
  · rw [join_append_singleton hne, lastSegment_append hname]

theorem withoutExtension_join (dirs : List (List Char)) (hname : '/' ∉ name) :
    withoutExtension (join '/' (dirs ++ [name])) = join '/' (dirs ++ [(splitName name).1]) := by
  by_cases hne : dirs = []
  · subst hne
    have hjoin : join '/' ([] ++ [name]) = name := rfl
    rw [hjoin, withoutExtension_eq, beforeLastSegment_of_not_mem hname, lastSegment_of_not_mem hname]
    rfl
  · rw [join_append_singleton hne, join_append_singleton hne, withoutExtension_append hname]

/-- The directory of a path of segments, whatever the last one is. -/
theorem dirName_join (h : ∀ dir ∈ dirs, IsSegment dir) (hname : '/' ∉ name) :
    dirName (join '/' (dirs ++ [name])) = join '/' dirs := by
  by_cases hne : dirs = []
  · subst hne
    have hjoin : join '/' ([] ++ [name]) = name := rfl
    rw [hjoin, dirName, beforeLastSegment_of_not_mem hname]
    rfl
  · obtain ⟨front, c, hjoin, hc⟩ := exists_join_eq_append hne h
    rw [join_append_singleton hne, dirName, beforeLastSegment_append hname, trimDirectory, hjoin]
    simp [hc]

/-- A name that starts with a dot, read from a directory. -/
theorem joinText_join (h : ∀ dir ∈ dirs, IsSegment dir) (hname : name.head? = some '.') :
    joinText (join '/' dirs) name = join '/' (dirs ++ [name]) := by
  obtain ⟨rest, rfl⟩ := List.head?_eq_some_iff.mp hname
  by_cases hne : dirs = []
  · subst hne
    rfl
  · obtain ⟨front, c, hjoin, hc⟩ := exists_join_eq_append hne h
    rw [join_append_singleton hne, hjoin]
    unfold joinText
    split <;> simp_all

end Path

end SourceAtlas
