import Mathlib.Algebra.Ring.Nat
import SourceAtlas.Path.Location
import SourceAtlas.Proofs.Tree.Walk

/-!
# Names and paths

A name in a directory is not empty, is no dot and no step to the parent, and has no slash and no
NUL. Names joined by slashes can be told apart again, so the text of a location from the root is
read back as the same location.
-/

namespace SourceAtlas

namespace Text

theorem split_of_not_mem {sep : Char} {part : List Char} (h : sep ∉ part) :
    split sep part = [part] := by
  induction part with
  | nil => rfl
  | cons c part ih =>
      have hc : c ≠ sep := fun hsame => h (hsame ▸ List.mem_cons_self)
      rw [split_cons, ih fun hmem => h (List.mem_cons_of_mem _ hmem)]
      simp [splitStep, hc]

theorem split_append_sep {sep : Char} {part : List Char} (h : sep ∉ part) (rest : List Char) :
    split sep (part ++ sep :: rest) = part :: split sep rest := by
  induction part with
  | nil => simp [splitStep]
  | cons c part ih =>
      have hc : c ≠ sep := fun hsame => h (hsame ▸ List.mem_cons_self)
      rw [List.cons_append, split_cons, ih fun hmem => h (List.mem_cons_of_mem _ hmem)]
      simp [splitStep, hc]

theorem not_mem_of_mem_split {sep : Char} {text part : List Char} (h : part ∈ split sep text) :
    sep ∉ part := by
  induction text generalizing part with
  | nil => simp_all
  | cons c text ih =>
      rw [split_cons] at h
      unfold splitStep at h
      split at h
      · rcases List.mem_cons.mp h with rfl | hrest
        · exact List.not_mem_nil
        · exact ih hrest
      · next hc =>
          split at h
          · rw [List.mem_singleton.mp h, List.mem_singleton]
            exact Ne.symm hc
          · next first rest hsplit =>
              rcases List.mem_cons.mp h with rfl | hrest
              · rw [List.mem_cons, not_or]
                exact ⟨Ne.symm hc, ih (hsplit ▸ List.mem_cons_self)⟩
              · exact ih (hsplit ▸ List.mem_cons_of_mem _ hrest)

theorem mem_of_mem_split {sep c : Char} {text part : List Char} (hpart : part ∈ split sep text)
    (hc : c ∈ part) : c ∈ text := by
  rw [← join_split sep text]
  cases hparts : split sep text with
  | nil => exact absurd hparts (split_ne_nil sep text)
  | cons first rest =>
      rw [hparts] at hpart
      rw [join_cons, List.mem_append, List.mem_flatMap]
      rcases List.mem_cons.mp hpart with rfl | hrest
      · exact .inl hc
      · exact .inr ⟨part, hrest, List.mem_cons_of_mem _ hc⟩

/-- Parts without the separator are told apart again after they were joined. -/
theorem split_intercalate {sep : Char} {parts : List (List Char)} (hne : parts ≠ [])
    (h : ∀ part ∈ parts, sep ∉ part) : split sep ([sep].intercalate parts) = parts := by
  induction parts with
  | nil => exact absurd rfl hne
  | cons first rest ih =>
      have hfirst := h first List.mem_cons_self
      cases rest with
      | nil => simpa [List.intercalate] using split_of_not_mem hfirst
      | cons next rest =>
          have hrest := ih (List.cons_ne_nil _ _) fun part hpart =>
            h part (List.mem_cons_of_mem _ hpart)
          have hjoin : [sep].intercalate (first :: next :: rest) =
              first ++ sep :: [sep].intercalate (next :: rest) := by
            simp [List.intercalate]
          rw [hjoin, split_append_sep hfirst, hrest]

end Text

/-- What the entry of a directory may be called. -/
structure IsName (name : String) : Prop where
  plain : Tree.IsPlainName name
  ne_empty : name ≠ ""
  slash : '/' ∉ name.toList
  nul : '\x00' ∉ name.toList

/-- The text of a path: its names with slashes between them. -/
def slashed (names : List String) : String := "/".intercalate names

namespace Location

theorem splitString_slashed {names : List String} (hne : names ≠ [])
    (h : ∀ name ∈ names, '/' ∉ name.toList) : Text.splitString '/' (slashed names) = names := by
  unfold Text.splitString slashed
  rw [String.toList_intercalate]
  have hslash : "/".toList = ['/'] := rfl
  rw [hslash, Text.split_intercalate (by simpa using hne) (by simpa using h), List.map_map]
  have hid : (String.ofList ∘ String.toList) = id := by
    funext s
    simp
  rw [hid, List.map_id]

theorem partsOf_slashed {names : List String} (h : ∀ name ∈ names, IsName name) :
    partsOf (slashed names) = names := by
  unfold partsOf
  cases names with
  | nil => rfl
  | cons first rest =>
      rw [splitString_slashed (List.cons_ne_nil _ _) fun name hname => (h name hname).slash]
      refine List.filter_eq_self.mpr fun name hname => ?_
      have hempty := (h name hname).ne_empty
      have hdot := (h name hname).plain.1
      simp [hempty, hdot]

theorem slashed_inj {first second : Route} (hfirst : ∀ name ∈ first, IsName name)
    (hsecond : ∀ name ∈ second, IsName name) (h : slashed first = slashed second) :
    first = second := by
  rw [← partsOf_slashed hfirst, h, partsOf_slashed hsecond]

theorem partsOf_slash_slashed {names : List String} (h : ∀ name ∈ names, IsName name) :
    partsOf ("/" ++ slashed names) = names := by
  have hsplit : Text.splitString '/' ("/" ++ slashed names) =
      "" :: Text.splitString '/' (slashed names) := by
    unfold Text.splitString
    rw [String.toList_append]
    have hslash : "/".toList = [] ++ ['/'] := rfl
    rw [hslash, List.append_assoc, List.singleton_append,
      Text.split_append_sep List.not_mem_nil, List.map_cons]
  have hparts := partsOf_slashed h
  unfold partsOf at hparts ⊢
  rw [hsplit, List.filter_cons_of_neg (by decide), hparts]

theorem toList_head?_slashed {names : List String} (h : ∀ name ∈ names, IsName name) :
    (slashed names).toList.head? ≠ some '/' := by
  cases names with
  | nil => simp [slashed]
  | cons first rest =>
      have hfirst := h first List.mem_cons_self
      have hne : first.toList ≠ [] := by simpa using hfirst.ne_empty
      obtain ⟨c, chars, hchars⟩ := List.exists_cons_of_ne_nil hne
      have hc : c ≠ '/' := by
        rintro rfl
        exact hfirst.slash (hchars ▸ List.mem_cons_self)
      unfold slashed
      rw [String.toList_intercalate]
      cases rest with
      | nil => simp [List.intercalate, hchars, hc]
      | cons next rest => simp [List.intercalate, hchars, hc]

theorem rootOf_of_head {text : List Char} (h : text.head? ≠ some '/') : rootOf text = .relative := by
  cases text with
  | nil => rfl
  | cons c rest =>
      have hc : c ≠ '/' := fun hsame => h (by rw [hsame]; rfl)
      unfold rootOf
      split <;> simp_all

theorem rootOf_slash {text : List Char} (h : text.head? ≠ some '/') :
    rootOf ('/' :: text) = .single := by
  cases text with
  | nil => rfl
  | cons c rest =>
      have hc : c ≠ '/' := fun hsame => h (by rw [hsame]; rfl)
      unfold rootOf
      split <;> simp_all

theorem ofText_slashed {names : List String} (h : ∀ name ∈ names, IsName name) :
    ofText (slashed names) = ⟨.relative, names⟩ := by
  unfold ofText
  rw [partsOf_slashed h, rootOf_of_head (toList_head?_slashed h)]

theorem text_ofRoute (route : Route) : (ofRoute route).text = "/" ++ slashed route := by
  unfold text ofRoute rootText slashed
  rw [if_neg]
  simp [String.isEmpty]

/-- The text of a location from the root is read back as this location. -/
theorem ofText_text_ofRoute {route : Route} (h : ∀ name ∈ route, IsName name) :
    ofText (ofRoute route).text = ofRoute route := by
  have hchars : ("/" ++ slashed route).toList = '/' :: (slashed route).toList := String.toList_append
  rw [text_ofRoute]
  unfold ofText ofRoute
  rw [partsOf_slash_slashed h, hchars, rootOf_slash (toList_head?_slashed h)]

/-- The bytes of a path from the root: of each name, and of the slash in front of it. -/
theorem byteLength_text_ofRoute {route : Route} (h : route ≠ []) :
    Tree.byteLength (ofRoute route).text = (route.map fun name => Tree.byteLength name + 1).sum := by
  rw [text_ofRoute]
  unfold slashed Tree.byteLength
  have hslash : "/".utf8ByteSize = 1 := rfl
  induction route with
  | nil => exact absurd rfl h
  | cons first rest ih =>
      cases rest with
      | nil =>
          simp only [String.intercalate_singleton, String.utf8ByteSize_append, hslash, List.map_cons,
            List.map_nil, List.sum_cons, List.sum_nil]
          omega
      | cons next rest =>
          have hrest := ih (List.cons_ne_nil _ _)
          simp only [String.intercalate_cons_cons, String.utf8ByteSize_append, hslash,
            List.map_cons, List.sum_cons] at hrest ⊢
          omega

/-- A listed path of a project leads to the route of its names below the root. -/
theorem child_slashed {route names : Route} (h : ∀ name ∈ names, IsName name) :
    (ofRoute route).child (slashed names) = ofRoute (route ++ names) := by
  unfold child
  rw [ofText_slashed h]
  rfl

end Location

end SourceAtlas
