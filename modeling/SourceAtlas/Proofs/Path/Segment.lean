import Mathlib.Data.List.TakeWhile
import SourceAtlas.Path.Slash

/-!
# Last segments

A path ends with the segment behind its last slash, and taking the extension off changes nothing but
this segment.
-/

namespace SourceAtlas.Path

variable {front name stem ending : List Char}

/-! ## The last segment -/

theorem ne_of_not_mem_reverse {c : Char} (h : c ∉ name) : ∀ d ∈ name.reverse, (d != c) = true :=
  fun d hd => by
    have hne : d ≠ c := fun hsame => h (hsame ▸ List.mem_reverse.mp hd)
    simpa using hne

theorem lastSegment_append (h : '/' ∉ name) (front : List Char) :
    lastSegment (front ++ '/' :: name) = name := by
  have hsplit : (front ++ '/' :: name).reverse = name.reverse ++ '/' :: front.reverse := by simp
  rw [lastSegment, hsplit, List.takeWhile_append_of_pos (ne_of_not_mem_reverse h),
    List.takeWhile_cons_of_neg (by decide), List.append_nil, List.reverse_reverse]

theorem beforeLastSegment_append (h : '/' ∉ name) (front : List Char) :
    beforeLastSegment (front ++ '/' :: name) = front ++ ['/'] := by
  have hall := beforeLastSegment_append_lastSegment (front ++ '/' :: name)
  rw [lastSegment_append h] at hall
  exact List.append_cancel_right (hall.trans (List.append_cons front '/' name))

theorem lastSegment_of_not_mem (h : '/' ∉ name) : lastSegment name = name := by
  rw [lastSegment, List.takeWhile_eq_self_iff.mpr (ne_of_not_mem_reverse h), List.reverse_reverse]

theorem beforeLastSegment_of_not_mem (h : '/' ∉ name) : beforeLastSegment name = [] := by
  have hall := beforeLastSegment_append_lastSegment name
  rw [lastSegment_of_not_mem h] at hall
  exact List.append_left_eq_self.mp hall

/-- What stands in front of the last segment ends with a slash. -/
theorem beforeLastSegment_cases (path : List Char) :
    beforeLastSegment path = [] ∨ ∃ front, beforeLastSegment path = front ++ ['/'] := by
  unfold beforeLastSegment
  cases hdrop : path.reverse.dropWhile (· != '/') with
  | nil => exact .inl rfl
  | cons d rest =>
      have hd : d = '/' := by
        have hfirst := List.head?_dropWhile_not (· != '/') path.reverse
        rw [hdrop] at hfirst
        simpa using hfirst
      exact .inr ⟨rest.reverse, by rw [List.reverse_cons, hd]⟩

theorem slash_not_mem_lastSegment (path : List Char) : '/' ∉ lastSegment path := by
  intro hmem
  have hall := List.all_takeWhile (p := (· != '/')) (l := path.reverse)
  have hslash := List.all_eq_true.mp hall '/' (List.mem_reverse.mp hmem)
  exact absurd hslash (by decide)

/-! ## Extensions -/

/-- A name is cut at its last dot, unless only dots stand in front of it. -/
theorem splitName_append (hending : '.' ∉ ending) (hstem : ∃ c ∈ stem, c ≠ '.') :
    splitName (stem ++ '.' :: ending) = (stem, '.' :: ending) := by
  have hsplit : (stem ++ '.' :: ending).reverse = ending.reverse ++ '.' :: stem.reverse := by simp
  have hplain := ne_of_not_mem_reverse hending
  have hother : stem.all (· == '.') = false := by simpa using hstem
  unfold splitName
  rw [hsplit, List.takeWhile_append_of_pos hplain, List.dropWhile_append_of_pos hplain,
    List.takeWhile_cons_of_neg (by decide), List.dropWhile_cons_of_neg (by decide)]
  simp [hother]

/-- A name is kept whole, or it is cut in front of a dot. -/
theorem splitName_cases (name : List Char) : splitName name = (name, []) ∨
    ∃ stem ending, stem ≠ [] ∧ name = stem ++ '.' :: ending ∧
      splitName name = (stem, '.' :: ending) := by
  unfold splitName
  dsimp only
  split
  · exact .inl rfl
  · next hall =>
      refine .inr ⟨_, _, fun hnone => hall (by rw [hnone]; rfl), ?_, rfl⟩
      have hname := congrArg List.reverse (List.takeWhile_append_dropWhile (p := (· != '.'))
        (l := name.reverse))
      cases hdrop : name.reverse.dropWhile (· != '.') with
      | nil =>
          rw [hdrop] at hall
          exact absurd rfl hall
      | cons d rest =>
          have hfirst := List.head?_dropWhile_not (· != '.') name.reverse
          rw [hdrop] at hfirst hname
          obtain rfl : d = '.' := by simpa using hfirst
          rw [List.reverse_append, List.reverse_reverse] at hname
          simpa using hname.symm

theorem splitName_append_snd (name : List Char) :
    (splitName name).1 ++ (splitName name).2 = name := by
  rcases splitName_cases name with hwhole | ⟨stem, ending, -, hname, hcut⟩
  · rw [hwhole]
    exact List.append_nil _
  · rw [hcut]
    exact hname.symm

theorem stem_subset (name : List Char) : (splitName name).1 ⊆ name := by
  have hall := List.subset_append_left (splitName name).1 (splitName name).2
  rwa [splitName_append_snd] at hall

/-- A name without its extension starts as the name does. -/
theorem head?_splitName (name : List Char) : (splitName name).1.head? = name.head? := by
  rcases splitName_cases name with hwhole | ⟨stem, ending, hne, hname, hcut⟩
  · rw [hwhole]
  · obtain ⟨c, rest, rfl⟩ := List.exists_cons_of_ne_nil hne
    rw [hcut, hname]
    rfl

theorem withoutExtension_eq (path : List Char) :
    withoutExtension path = beforeLastSegment path ++ (splitName (lastSegment path)).1 := rfl

theorem withoutExtension_append (h : '/' ∉ name) (front : List Char) :
    withoutExtension (front ++ '/' :: name) = front ++ '/' :: (splitName name).1 := by
  rw [withoutExtension_eq, lastSegment_append h, beforeLastSegment_append h, List.append_assoc,
    List.singleton_append]

theorem withoutExtension_subset (path : List Char) : withoutExtension path ⊆ path := by
  intro c hc
  rw [withoutExtension_eq, List.mem_append] at hc
  rw [← beforeLastSegment_append_lastSegment path, List.mem_append]
  exact hc.imp_right fun hstem => stem_subset _ hstem

theorem exists_append_withoutExtension (path : List Char) :
    ∃ ending, path = withoutExtension path ++ ending := by
  refine ⟨(splitName (lastSegment path)).2, ?_⟩
  rw [withoutExtension_eq, List.append_assoc, splitName_append_snd,
    beforeLastSegment_append_lastSegment]

theorem lastSegment_withoutExtension (path : List Char) :
    lastSegment (withoutExtension path) = (splitName (lastSegment path)).1 := by
  have hstem : '/' ∉ (splitName (lastSegment path)).1 := fun hmem =>
    slash_not_mem_lastSegment path (stem_subset _ hmem)
  rw [withoutExtension_eq]
  rcases beforeLastSegment_cases path with hnone | ⟨front, hfront⟩
  · rw [hnone, List.nil_append, lastSegment_of_not_mem hstem]
  · rw [hfront, List.append_assoc, List.singleton_append, lastSegment_append hstem]

/-- Taking the extension off leaves the slashes of a path. -/
theorem slash_mem_withoutExtension_iff {path : List Char} :
    '/' ∈ withoutExtension path ↔ '/' ∈ path := by
  refine ⟨fun hmem => withoutExtension_subset path hmem, fun hmem => ?_⟩
  rw [← beforeLastSegment_append_lastSegment path, List.mem_append] at hmem
  rw [withoutExtension_eq, List.mem_append]
  exact .inl (hmem.resolve_right (slash_not_mem_lastSegment path))

end SourceAtlas.Path
