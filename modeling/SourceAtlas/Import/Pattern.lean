import SourceAtlas.Text.Search

/-!
# Text patterns

A pattern is matched at the start of a text and may match in several ways; it denotes the list of
texts that can remain, the preferred one first. Runs are greedy, alternatives prefer the left one.
-/

namespace SourceAtlas

inductive Pattern
  /-- Exactly these characters. -/
  | literal (text : List Char)
  /-- One character of a class. -/
  | one (accepts : Char → Bool)
  /-- Any number of characters of a class. -/
  | run (accepts : Char → Bool)
  /-- One pattern, then another. -/
  | seq (first second : Pattern)
  /-- The left pattern, or else the right one. -/
  | either (left right : Pattern)

namespace Pattern

def text (s : String) : Pattern := literal s.toList

/-- At least one character of a class. -/
def run1 (accepts : Char → Bool) : Pattern := seq (one accepts) (run accepts)

def optional (p : Pattern) : Pattern := either p (literal [])

instance : Append Pattern := ⟨seq⟩

/-- What can remain after a greedy run, the longest run first; `shorter` holds the outcomes of the
shorter runs. -/
def runRests (accepts : Char → Bool) (shorter : List (List Char)) :
    List Char → List (List Char)
  | [] => [] :: shorter
  | c :: rest =>
      if accepts c then runRests accepts ((c :: rest) :: shorter) rest
      else (c :: rest) :: shorter

/-- What can remain after the pattern, the preferred outcome first. -/
def rests : Pattern → List Char → List (List Char)
  | literal start, text => (Text.dropStart? start text).toList
  | one accepts, text =>
      match text with
      | [] => []
      | c :: rest => if accepts c then [rest] else []
  | run accepts, text => runRests accepts [] text
  | seq first second, text => (first.rests text).flatMap second.rests
  | either left right, text => left.rests text ++ right.rests text

end Pattern

end SourceAtlas
