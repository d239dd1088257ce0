/-!
# Order of strings

Strings are sorted by code point. A sorted list without repetitions stands for a set.
-/

namespace SourceAtlas.Text

/-- Order by code point. -/
def codePointLe (a b : String) : Bool := decide (a ≤ b)

def dropRepeats : List String → List String
  | a :: b :: rest => if a = b then dropRepeats (b :: rest) else a :: dropRepeats (b :: rest)
  | rest => rest

/-- The elements of a list in ascending order, each once. -/
def sortDistinct (texts : List String) : List String :=
  dropRepeats (texts.mergeSort codePointLe)

end SourceAtlas.Text
