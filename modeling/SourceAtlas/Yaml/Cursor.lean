/-!
# Places in a YAML text

A cursor holds the rest of a text with the line and the column of its start. Lines end at `\n`,
U+0085, U+2028 and U+2029.
-/

namespace SourceAtlas.Yaml

/-- What is seen behind the end of the text. -/
def endMark : Char := '\x00'

def isBreak (c : Char) : Bool := c == '\n' || c == '\x85' || c == '\u2028' || c == '\u2029'

def isBreakOrEnd (c : Char) : Bool := isBreak c || c == endMark

def isSpaceOrEnd (c : Char) : Bool := c == ' ' || isBreakOrEnd c

/-- A space, a tab, or the end of a line or of the text. -/
def isGap (c : Char) : Bool := c == '\t' || isSpaceOrEnd c

def isIndent (c : Char) : Bool := c == ' ' || c == '\t'

structure Cursor where
  rest : List Char
  index : Nat := 0
  line : Nat := 0
  column : Nat := 0
  deriving Repr

namespace Cursor

def peek (cursor : Cursor) : Char := cursor.rest.headD endMark

def peekAt (n : Nat) (cursor : Cursor) : Char := (cursor.rest.drop n).headD endMark

def atEnd (cursor : Cursor) : Bool := cursor.rest.isEmpty

/-- Pass one character. A byte order mark takes no column. -/
def next (cursor : Cursor) : Cursor :=
  match cursor.rest with
  | [] => cursor
  | c :: rest =>
      if isBreak c then ⟨rest, cursor.index + 1, cursor.line + 1, 0⟩
      else if c = '\ufeff' then ⟨rest, cursor.index + 1, cursor.line, cursor.column⟩
      else ⟨rest, cursor.index + 1, cursor.line, cursor.column + 1⟩

def skip : Nat → Cursor → Cursor
  | 0, cursor => cursor
  | n + 1, cursor => skip n cursor.next

def takeWhile (accepts : Char → Bool) (cursor : Cursor) : List Char × Cursor :=
  let taken := cursor.rest.takeWhile accepts
  (taken, cursor.skip taken.length)

def skipWhile (accepts : Char → Bool) (cursor : Cursor) : Cursor := (cursor.takeWhile accepts).2

def skipSpaces (cursor : Cursor) : Cursor := cursor.skipWhile (· == ' ')

/-- Pass a comment up to the end of its line. -/
def skipComment (cursor : Cursor) : Cursor :=
  if cursor.peek = '#' then cursor.skipWhile fun c => !isBreak c else cursor

/-- Take a line break; the common ones count as `\n`. -/
def takeBreak (cursor : Cursor) : List Char × Cursor :=
  let c := cursor.peek
  if c = '\n' ∨ c = '\x85' then (['\n'], cursor.next)
  else if isBreak c then ([c], cursor.next)
  else ([], cursor)

/-- A mark of three characters stands here, with a gap behind it. -/
def atMark (mark : Char) (cursor : Cursor) : Bool :=
  cursor.rest.take 3 == [mark, mark, mark] && isGap (cursor.peekAt 3)

def atDocumentMark (cursor : Cursor) : Bool := cursor.atMark '-' || cursor.atMark '.'

end Cursor

end SourceAtlas.Yaml
