/-!
# Ranges of code points

A character class of the Unicode standard is stored as an ascending list of closed ranges. Blank
characters are the white space of the standard together with the four ASCII separators U+001C to
U+001F.
-/

namespace SourceAtlas.Text

/-- A class of characters: ascending, disjoint, closed ranges of code points. -/
abbrev CharRanges := List (Nat × Nat)

def CharRanges.contains (ranges : CharRanges) (c : Char) : Bool :=
  ranges.any fun range => range.1 ≤ c.toNat && c.toNat ≤ range.2

theorem CharRanges.contains_iff (ranges : CharRanges) (c : Char) :
    ranges.contains c = true ↔ ∃ range ∈ ranges, range.1 ≤ c.toNat ∧ c.toNat ≤ range.2 := by
  simp [CharRanges.contains]

def blankRanges : CharRanges :=
  [(9, 13), (28, 32), (133, 133), (160, 160), (5760, 5760), (8192, 8202),
   (8232, 8233), (8239, 8239), (8287, 8287), (12288, 12288)]

/-- White space of any script. -/
def isBlank (c : Char) : Bool :=
  if c.toNat < 128 then (9 ≤ c.toNat && c.toNat ≤ 13) || (28 ≤ c.toNat && c.toNat ≤ 32)
  else blankRanges.contains c

end SourceAtlas.Text
