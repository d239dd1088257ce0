import SourceAtlas.Yaml.Lexeme

/-!
# Scalars in YAML texts

A scalar is plain, stands between single or double quotes, or fills the lines of a block. Line
breaks inside the first three fold into spaces.
-/

namespace SourceAtlas.Yaml

/-- The characters that a letter after a backslash stands for. -/
def escapes : List (Char × Char) :=
  [('0', '\x00'), ('a', '\x07'), ('b', '\x08'), ('t', '\t'), ('\t', '\t'), ('n', '\n'),
   ('v', '\x0b'), ('f', '\x0c'), ('r', '\r'), ('e', '\x1b'), (' ', ' '), ('\x22', '\x22'),
   ('\\', '\\'), ('/', '/'), ('N', '\x85'), ('_', '\xa0'), ('L', '\u2028'), ('P', '\u2029')]

/-- The number of digits behind a letter that starts a numeric escape. -/
def escapeWidth? : Char → Option Nat
  | 'x' => some 2
  | 'u' => some 4
  | 'U' => some 8
  | _ => none

def hexNumber? (digits : List Char) : Option Nat :=
  digits.foldlM (fun n c => (Text.hexValue? c).map (n * 16 + ·)) 0

/-- The character of a numeric escape, of which the letter has been passed. -/
def lexCode (width : Nat) (cursor : Cursor) : Except Fault (Char × Cursor) :=
  let digits := cursor.rest.take width
  match hexNumber? digits with
  | none => malformed .token
  | some code =>
      if digits.length < width then malformed .token
      else if 0x110000 ≤ code then .error (.badScalar (.character code))
      else if 0xD800 ≤ code ∧ code < 0xE000 then .ok ('\ufffd', cursor.skip width)
      else .ok (Char.ofNat code, cursor.skip width)

/-- Line breaks after the first one inside quotes, with the blanks between them passed. -/
def lexFoldedBreaksFuel : Nat → Cursor → Except Fault (List Char × Cursor)
  | 0, cursor => .ok ([], cursor)
  | fuel + 1, cursor =>
      if cursor.atDocumentMark then malformed .token
      else
        let cursor := cursor.skipWhile isIndent
        if isBreak cursor.peek then do
          let (here, cursor) := cursor.takeBreak
          let (others, cursor) ← lexFoldedBreaksFuel fuel cursor
          .ok (here ++ others, cursor)
        else .ok ([], cursor)

def lexFoldedBreaks (cursor : Cursor) : Except Fault (List Char × Cursor) :=
  lexFoldedBreaksFuel (cursor.rest.length + 1) cursor

/-- What a line break and the ones after it become: one common break is a space, or nothing when
others follow. -/
def fold (first others : List Char) : List Char :=
  if first ≠ ['\n'] then first ++ others else if others.isEmpty then [' '] else others

def lexQuotedSpace (cursor : Cursor) : Except Fault (List Char × Cursor) := do
  let (blanks, after) := cursor.takeWhile isIndent
  if after.atEnd then malformed .token
  else if isBreak after.peek then
    let (first, after) := after.takeBreak
    let (others, after) ← lexFoldedBreaks after
    .ok (fold first others, after)
  else .ok (blanks, after)

/-- An escape between double quotes, of which the backslash has been passed. -/
def lexEscape (cursor : Cursor) : Except Fault (List Char × Cursor) := do
  let c := cursor.peek
  if isBreak c then lexFoldedBreaks cursor.takeBreak.2
  else match escapes.lookup c with
    | some d => .ok ([d], cursor.next)
    | none =>
        match escapeWidth? c with
        | some width => do
            let (d, after) ← lexCode width cursor.next
            .ok ([d], after)
        | none => malformed .token

/-- The text up to a closing quote; `fuel` is at least the length of the rest. -/
def lexQuotedFuel (quote : Char) : Nat → Cursor → Except Fault (List Char × Cursor)
  | 0, _ => malformed .token
  | fuel + 1, cursor =>
      let c := cursor.peek
      if cursor.atEnd then malformed .token
      else if c = quote ∧ quote = '\x27' ∧ cursor.peekAt 1 = '\x27' then do
        let (text, after) ← lexQuotedFuel quote fuel (cursor.skip 2)
        .ok ('\x27' :: text, after)
      else if c = quote then .ok ([], cursor.next)
      else do
        let (here, after) ←
          if c = '\\' ∧ quote = '\x22' then lexEscape cursor.next
          else if isIndent c || isBreak c then lexQuotedSpace cursor
          else .ok ([c], cursor.next)
        let (text, after) ← lexQuotedFuel quote fuel after
        .ok (here ++ text, after)

def lexQuoted (cursor : Cursor) : Except Fault (Token × Cursor) := do
  let (text, after) ← lexQuotedFuel cursor.peek (cursor.rest.length + 1) cursor.next
  .ok (.scalar text false, after)

/-- The plain text on one line. A colon ends it before a gap, and in flow collections before a
bracket or a comma, which end it themselves. -/
def plainRun (inFlow : Bool) : List Char → List Char
  | [] => []
  | c :: rest =>
      let behind := rest.headD endMark
      if isGap c then []
      else if c = ':' ∧ (isGap behind ∨ (inFlow ∧ ",[]\x7b\x7d".toList.contains behind)) then []
      else if inFlow ∧ ",?[]\x7b\x7d".toList.contains c then []
      else c :: plainRun inFlow rest

/-- Line breaks after the first one in a plain scalar, or nothing before a document mark. -/
def plainBreaksFuel : Nat → Cursor → Option (List Char) × Cursor
  | 0, cursor => (some [], cursor)
  | fuel + 1, cursor =>
      let cursor := cursor.skipSpaces
      if isBreak cursor.peek then
        let (here, cursor) := cursor.takeBreak
        if cursor.atDocumentMark then (none, cursor)
        else
          let (others, cursor) := plainBreaksFuel fuel cursor
          (others.map (here ++ ·), cursor)
      else (some [], cursor)

/-- White space in a plain scalar: what it becomes, whether it holds a line break, and where it
ends. The scalar ends if it becomes nothing. -/
def plainSpace (cursor : Cursor) : List Char × Bool × Cursor :=
  let (blanks, after) := cursor.takeWhile (· == ' ')
  if isBreak after.peek then
    let (first, after) := after.takeBreak
    if after.atDocumentMark then ([], true, after)
    else
      match plainBreaksFuel (after.rest.length + 1) after with
      | (some others, after) => (fold first others, true, after)
      | (none, after) => ([], true, after)
  else (blanks, false, after)

/-- A plain scalar as far as it goes. -/
structure Plain where
  text : List Char := []
  /-- A line break has been passed since the last piece of text. -/
  brokeLine : Bool := false
  cursor : Cursor

/-- The pieces of a plain scalar, each with the white space before it. Outside flow collections
lines have to be indented to `indent`. -/
def lexPlainFuel (inFlow : Bool) (indent : Int) : Nat → List Char → Plain → Plain
  | 0, _, plain => plain
  | fuel + 1, space, plain =>
      let piece := plainRun inFlow plain.cursor.rest
      if plain.cursor.peek = '#' || piece.isEmpty then plain
      else
        let (next, brokeLine, after) := plainSpace (plain.cursor.skip piece.length)
        let plain : Plain := ⟨plain.text ++ space ++ piece, brokeLine, after⟩
        if next.isEmpty || after.peek == '#' || (!inFlow && decide ((after.column : Int) < indent))
        then plain
        else lexPlainFuel inFlow indent fuel next plain

def lexPlain (inFlow : Bool) (indent : Int) (cursor : Cursor) : Plain :=
  lexPlainFuel inFlow indent (cursor.rest.length + 1) [] ⟨[], false, cursor⟩

/-- What happens to the line breaks at the end of a block. -/
inductive Chomp
  | strip
  | clip
  | keep
  deriving DecidableEq, Repr

/-- A sign behind the mark of a block. -/
def chompOf? : Char → Option Chomp
  | '+' => some .keep
  | '-' => some .strip
  | _ => none

/-- A digit behind the mark of a block. -/
def indentOf? (c : Char) : Option Nat := if c.isDigit then some (c.toNat - 48) else none

/-- A sign and a digit behind the mark of a block, in any order, each at most once. -/
def blockHeader (cursor : Cursor) : Chomp × Option Nat × Cursor :=
  match chompOf? cursor.peek with
  | some chomp =>
      match indentOf? cursor.next.peek with
      | some indent => (chomp, some indent, cursor.next.next)
      | none => (chomp, none, cursor.next)
  | none =>
      match indentOf? cursor.peek with
      | some indent =>
          match chompOf? cursor.next.peek with
          | some chomp => (chomp, some indent, cursor.next.next)
          | none => (.clip, some indent, cursor.next)
      | none => (.clip, none, cursor)

/-- Empty lines at the start of a block: their breaks, and the largest indentation met. -/
def leadingBreaksFuel : Nat → Nat → Cursor → List Char × Nat × Cursor
  | 0, widest, cursor => ([], widest, cursor)
  | fuel + 1, widest, cursor =>
      if cursor.peek = ' ' then leadingBreaksFuel fuel (max widest cursor.next.column) cursor.next
      else if isBreak cursor.peek then
        let (here, cursor) := cursor.takeBreak
        let (others, widest, cursor) := leadingBreaksFuel fuel widest cursor
        (here ++ others, widest, cursor)
      else ([], widest, cursor)

def skipIndent (indent : Nat) (cursor : Cursor) : Cursor :=
  cursor.skip ((cursor.rest.take (indent - cursor.column)).takeWhile (· == ' ')).length

def blockBreaksFuel (indent : Nat) : Nat → Cursor → List Char × Cursor
  | 0, cursor => ([], cursor)
  | fuel + 1, cursor =>
      let cursor := skipIndent indent cursor
      if isBreak cursor.peek then
        let (here, cursor) := cursor.takeBreak
        let (others, cursor) := blockBreaksFuel indent fuel cursor
        (here ++ others, cursor)
      else ([], cursor)

def blockBreaks (indent : Nat) (cursor : Cursor) : List Char × Cursor :=
  blockBreaksFuel indent (cursor.rest.length + 1) cursor

def atBlockLine (indent : Nat) (cursor : Cursor) : Bool :=
  cursor.column == indent && !cursor.atEnd

/-- The lines of a block. `breaks` are the line breaks before the first one; the answer holds the
text, the last line break, and the breaks behind it. -/
def blockLinesFuel (folded : Bool) (indent : Nat) :
    Nat → List Char → Cursor → List Char × List Char × List Char × Cursor
  | 0, breaks, cursor => ([], [], breaks, cursor)
  | fuel + 1, breaks, cursor =>
      if !atBlockLine indent cursor then ([], [], breaks, cursor)
      else
        let (line, after) := cursor.takeWhile fun c => !isBreak c
        let (last, after) := after.takeBreak
        let (between, after) := blockBreaks indent after
        if atBlockLine indent after then
          let joint :=
            if folded && last == ['\n'] && !isIndent cursor.peek && !isIndent after.peek then
              if between.isEmpty then [' '] else []
            else last
          let (text, rest) := blockLinesFuel folded indent fuel between after
          (breaks ++ line ++ joint ++ text, rest)
        else (breaks ++ line, last, between, after)

/-- A block of lines, whose mark stands here; `indent` is the indentation around it. -/
def lexBlock (indent : Int) (cursor : Cursor) : Except Fault (Token × Cursor) := do
  let (chomp, given, after) := blockHeader cursor.next
  if given = some 0 || !isSpaceOrEnd after.peek then malformed .token
  else
    let after ← endLine after
    let least := (max (indent + 1) 1).toNat
    let (breaks, column, after) := match given with
      | some extra =>
          let column := least + extra - 1
          let (breaks, after) := blockBreaks column after
          (breaks, column, after)
      -- Without a digit the widest empty line in front counts like the first line of text.
      | none =>
          let (breaks, widest, after) := leadingBreaksFuel (after.rest.length + 1) 0 after
          (breaks, max least widest, after)
    let (text, last, trailing, after) :=
      blockLinesFuel (cursor.peek == '>') column (after.rest.length + 1) breaks after
    let tail := match chomp with
      | .strip => []
      | .clip => last
      | .keep => last ++ trailing
    .ok (.scalar (text ++ tail) false, after)

end SourceAtlas.Yaml
