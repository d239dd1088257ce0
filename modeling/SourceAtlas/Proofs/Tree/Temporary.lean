import Mathlib.Data.List.Induction
import SourceAtlas.Proofs.Tree.Place
import SourceAtlas.Tree.Disk

/-!
# The place of the temporary file

A file and its temporary file are looked up in the same directory, with the same number of links
left. Whatever leads to the temporary file leads to the file too, since its name is shorter.
-/

namespace SourceAtlas

namespace Location

/-- The location of the temporary file is the location of the file with a longer last name. -/
theorem appending?_eq_some {location longer : Location} {ending : String}
    (h : location.appending? ending = some longer) :
    ∃ name, location.parts = location.parts.dropLast ++ [name] ∧
      longer = ⟨location.root, location.parts.dropLast ++ [name ++ ending]⟩ := by
  unfold appending? at h
  obtain ⟨name, hname, rfl⟩ := Option.map_eq_some_iff.mp h
  exact ⟨name, Tree.parts_eq_of_getLast? hname, rfl⟩

theorem intercalate_append_ending (front : List String) (name ending : String) :
    "/".intercalate (front ++ [name ++ ending]) =
      "/".intercalate (front ++ [name]) ++ ending := by
  cases front with
  | nil => simp
  | cons first rest =>
      rw [String.intercalate_append_of_ne_nil (List.cons_ne_nil _ _) (List.cons_ne_nil _ _),
        String.intercalate_append_of_ne_nil (List.cons_ne_nil _ _) (List.cons_ne_nil _ _)]
      simp [String.append_assoc]

/-- The text of a location does not get shorter when something is appended to it. -/
theorem utf8ByteSize_shown_le (body rest : String) :
    (if body.isEmpty then "." else body).utf8ByteSize ≤
      (if (body ++ rest).isEmpty then "." else body ++ rest).utf8ByteSize := by
  have hdot : ".".utf8ByteSize = 1 := by decide
  simp only [String.isEmpty, beq_iff_eq, String.utf8ByteSize_append]
  split
  · split
    · exact Nat.le_refl _
    · rw [hdot, String.utf8ByteSize_append]
      omega
  · rw [if_neg (by omega), String.utf8ByteSize_append]
    exact Nat.le_add_right _ _

theorem byteLength_text_append_ending (root : PathRoot) (front : List String)
    (name ending : String) :
    Tree.byteLength (text ⟨root, front ++ [name]⟩) ≤
      Tree.byteLength (text ⟨root, front ++ [name ++ ending]⟩) := by
  simp only [text, Tree.byteLength, intercalate_append_ending, ← String.append_assoc]
  exact utf8ByteSize_shown_le _ _

theorem byteLength_text_append_name (root : PathRoot) (front : List String) (name : String) :
    Tree.byteLength (text ⟨root, front⟩) ≤ Tree.byteLength (text ⟨root, front ++ [name]⟩) := by
  simp only [text, Tree.byteLength]
  cases front with
  | nil =>
      simp only [String.intercalate_nil, List.nil_append, String.intercalate_singleton,
        String.append_empty]
      exact utf8ByteSize_shown_le _ _
  | cons first rest =>
      rw [String.intercalate_append_of_ne_nil (List.cons_ne_nil _ _) (List.cons_ne_nil _ _)]
      have h := utf8ByteSize_shown_le (rootText root ++ "/".intercalate (first :: rest))
        ("/" ++ "/".intercalate [name])
      simpa only [String.append_assoc] using h

theorem IsUsable.of_appending? {location longer : Location} {ending : String}
    (h : location.appending? ending = some longer) (hlonger : longer.IsUsable) :
    location.IsUsable := by
  obtain ⟨name, hparts, rfl⟩ := appending?_eq_some h
  obtain ⟨root, parts⟩ := location
  simp only at hparts hlonger
  rw [hparts]
  obtain ⟨hnul, hlong⟩ := hlonger
  refine ⟨?_, Nat.lt_of_le_of_lt (byteLength_text_append_ending root _ name ending) hlong⟩
  simp only [hasNul, List.any_append, List.any_cons, List.any_nil, Bool.or_false,
    Bool.or_eq_false_iff, String.toList_append, List.contains_append] at hnul ⊢
  exact ⟨hnul.1, hnul.2.1⟩

theorem IsUsable.parent {location : Location} (h : location.IsUsable) :
    location.parent.IsUsable := by
  obtain ⟨root, parts⟩ := location
  rcases List.eq_nil_or_concat parts with rfl | ⟨front, name, rfl⟩
  · exact h
  · obtain ⟨hnul, hlong⟩ := h
    simp only [Location.parent, List.concat_eq_append, List.dropLast_concat] at hnul hlong ⊢
    refine ⟨?_, Nat.lt_of_le_of_lt (byteLength_text_append_name root front name) hlong⟩
    simp only [hasNul, List.any_append, Bool.or_eq_false_iff] at hnul ⊢
    exact hnul.1

/-- The directories above a place have usable paths if it has one. -/
theorem IsUsable.of_isPrefix {front route : Route} (h : (ofRoute route).IsUsable)
    (hfront : front <+: route) : (ofRoute front).IsUsable := by
  obtain ⟨back, rfl⟩ := hfront
  induction back using List.reverseRecOn with
  | nil => rwa [List.append_nil] at h
  | append_singleton back name ih =>
      apply ih
      have hparent := h.parent
      rwa [Location.parent, ofRoute, ← List.append_assoc, List.dropLast_concat] at hparent

end Location

namespace Tree

/-- The name of a temporary file is neither a dot nor two. -/
theorem temporary_ne {name text : String} (h : byteLength text < 4) :
    name ++ Disk.temporaryEnding ≠ text := by
  rintro rfl
  have hending : Disk.temporaryEnding.utf8ByteSize = 4 := by decide
  simp only [byteLength, String.utf8ByteSize_append, hending] at h
  omega

theorem ne_temporary (name : String) : name ≠ name ++ Disk.temporaryEnding := by
  intro h
  have hsize := congrArg String.utf8ByteSize h
  rw [String.utf8ByteSize_append] at hsize
  have hending : Disk.temporaryEnding.utf8ByteSize = 4 := by decide
  omega

variable {tree : Tree} {shell : Shell} {target temporary : Location} {left : Nat}
  {parent : Route} {name : String}

/-- What leads to the temporary file leads to the file. -/
theorem Leads.of_temporary (h : target.appending? Disk.temporaryEnding = some temporary)
    (hleads : tree.Leads shell temporary left parent name) :
    ∃ short, name = short ++ Disk.temporaryEnding ∧
      tree.Leads shell target left parent short := by
  obtain ⟨short, hparts, rfl⟩ := Location.appending?_eq_some h
  obtain ⟨husable, hlonger, hreach⟩ := hleads
  simp only [List.dropLast_concat, List.append_cancel_left_eq, List.cons.injEq, and_true]
    at hlonger hreach
  refine ⟨short, hlonger.symm, ?_, hparts, hreach⟩
  exact Location.IsUsable.of_appending? h husable

end Tree

end SourceAtlas
