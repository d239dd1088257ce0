/-!
# Name patterns

Exclude patterns are matched against one segment of a path: `*` stands for any text, `?` for one
character, and brackets for one character of a set with ranges.
-/

namespace SourceAtlas

/-- One item of a pattern. A set holds the characters of closed ranges. -/
inductive GlobItem
  | anyText
  | anyChar
  | char (c : Char)
  | set (negated : Bool) (ranges : List (Char × Char))
  deriving DecidableEq, Repr

abbrev Glob := List GlobItem

namespace GlobItem

/-- Whether the item accepts one character. -/
def accepts : GlobItem → Char → Bool
  | anyText, _ => false
  | anyChar, _ => true
  | char d, c => c == d
  | set negated ranges, c => (ranges.any fun range => range.1 ≤ c && c ≤ range.2) != negated

end GlobItem

namespace Glob

/-- All suffixes of a text, the longest first. -/
def suffixes : List Char → List (List Char)
  | [] => [[]]
  | c :: rest => (c :: rest) :: suffixes rest

/-- What may remain after one item, given what may remain before it. Both lists hold suffixes of
one text, the longest first, so the first one alone decides what `*` can leave. -/
def step (rests : List (List Char)) : GlobItem → List (List Char)
  | .anyText => match rests with
      | [] => []
      | longest :: _ => suffixes longest
  | item => rests.filterMap fun rest =>
      match rest with
      | [] => none
      | c :: rest => if item.accepts c then some rest else none

/-- The pattern matches the whole text. -/
def isMatch (glob : Glob) (text : List Char) : Bool :=
  (glob.foldl step [text]).contains []

/-- The chunks of a bracket body between its range hyphens. A hyphen makes a range unless it is
the first character, and the character after a range starts anew. `current` holds the chunk under
way, last character first, and `guard` the characters that cannot be a range hyphen. -/
def chunks (guard : Nat) (current : List Char) : List Char → List (List Char)
  | [] => if current.isEmpty then [] else [current.reverse]
  | c :: rest =>
      if c = '-' ∧ guard = 0 then
        -- At the end it is a character of the last chunk.
        if rest.isEmpty then [(c :: current).reverse]
        else current.reverse :: chunks 2 [] rest
      else chunks (guard - 1) (c :: current) rest

/-- Remove the ranges that run backwards, from the last to the first: both ends go. -/
def dropEmptyRanges : List (List Char) → List (List Char)
  | [] => []
  | chunk :: rest =>
      match dropEmptyRanges rest with
      | [] => [chunk]
      | next :: others =>
          match chunk.getLast?, next.head? with
          | some low, some high =>
              if high < low then (chunk.dropLast ++ next.tail) :: others
              else chunk :: next :: others
          | _, _ => chunk :: next :: others

/-- The ranges of a list of chunks: every character, and what lies between the end of a chunk and
the start of the next one. -/
def rangesOf : List (List Char) → List (Char × Char)
  | [] => []
  | [chunk] => chunk.map fun c => (c, c)
  | chunk :: next :: rest =>
      let span := match chunk.getLast?, next.head? with
        | some low, some high => [(low, high)]
        -- Beside an empty chunk the hyphen stands for itself.
        | _, _ => [('-', '-')]
      chunk.map (fun c => (c, c)) ++ span ++ rangesOf (next :: rest)

/-- The set of a bracket body. A leading `!` negates it; a body of backward ranges is empty. -/
def setOf (body : List Char) : GlobItem :=
  let guard := if body.head? = some '!' then 2 else 1
  match dropEmptyRanges (chunks guard [] body) with
  | ('!' :: chunk) :: rest => .set true (rangesOf (chunk :: rest))
  | parts => .set false (rangesOf parts)

/-- The body of a bracket and what follows it, if the bracket is closed. A `]` directly after the
opening, or after its `!`, belongs to the body. -/
def bracketBody (text : List Char) : Option (List Char × List Char) :=
  let (lead, rest) := match text with
    | '!' :: ']' :: rest => (['!', ']'], rest)
    | '!' :: rest => (['!'], rest)
    | ']' :: rest => ([']'], rest)
    | rest => ([], rest)
  match rest.dropWhile (· != ']') with
  | [] => none
  | _ :: after => some (lead ++ rest.takeWhile (· != ']'), after)

/-- Parse a pattern; `fuel` is at least its length. -/
def parseFuel : Nat → List Char → Glob
  | 0, _ => []
  | _ + 1, [] => []
  | fuel + 1, '*' :: rest => .anyText :: parseFuel fuel rest
  | fuel + 1, '?' :: rest => .anyChar :: parseFuel fuel rest
  | fuel + 1, '[' :: rest =>
      match bracketBody rest with
      | none => .char '[' :: parseFuel fuel rest
      | some (body, after) => setOf body :: parseFuel fuel after
  | fuel + 1, c :: rest => .char c :: parseFuel fuel rest

/-- Parse a pattern. An unclosed bracket stands for itself. -/
def parse (pattern : List Char) : Glob := parseFuel pattern.length pattern

def matchesName (pattern name : String) : Bool := (parse pattern.toList).isMatch name.toList

end Glob

end SourceAtlas
