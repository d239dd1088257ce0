/-!
# Searching in text

Whether one text occurs in another, and what is left behind a fixed beginning or ending.
-/

namespace SourceAtlas.Text

/-- The rest of a text behind a fixed beginning. -/
def dropStart? : List Char → List Char → Option (List Char)
  | [], text => some text
  | _ :: _, [] => none
  | d :: start, c :: text => if c = d then dropStart? start text else none

def dropEnd? (ending text : List Char) : Option (List Char) :=
  (dropStart? ending.reverse text.reverse).map List.reverse

def occursIn (needle : List Char) : List Char → Bool
  | [] => needle.isEmpty
  | c :: rest => (dropStart? needle (c :: rest)).isSome || occursIn needle rest

def hasPart (text part : String) : Bool := occursIn part.toList text.toList

def hasStart (text start : String) : Bool := (dropStart? start.toList text.toList).isSome

theorem dropStart?_eq_some_iff {start text rest : List Char} :
    dropStart? start text = some rest ↔ text = start ++ rest := by
  induction start generalizing text with
  | nil => simp [dropStart?, eq_comm]
  | cons d start ih =>
      cases text with
      | nil => simp [dropStart?]
      | cons c text =>
          by_cases h : c = d
          · simp [dropStart?, h, ih]
          · simp [dropStart?, h]

theorem dropEnd?_eq_some_iff {ending text front : List Char} :
    dropEnd? ending text = some front ↔ text = front ++ ending := by
  rw [dropEnd?, Option.map_eq_some_iff]
  constructor
  · rintro ⟨back, hback, rfl⟩
    have htext := congrArg List.reverse (dropStart?_eq_some_iff.mp hback)
    rwa [List.reverse_reverse, List.reverse_append, List.reverse_reverse] at htext
  · rintro rfl
    exact ⟨front.reverse, dropStart?_eq_some_iff.mpr List.reverse_append, front.reverse_reverse⟩

end SourceAtlas.Text
