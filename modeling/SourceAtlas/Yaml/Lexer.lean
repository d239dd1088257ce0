import SourceAtlas.Yaml.Scalar

/-!
# Token lists

A text becomes a list of tokens. Columns decide where block collections start and end. Anything
that could turn out to be a key is remembered; when its colon is met, the mark of the key is
inserted in front of it.
-/

namespace SourceAtlas.Yaml

/-- A token that may turn out to start a key. -/
structure KeyPlace where
  /-- The number of tokens in front of it. -/
  place : Nat
  /-- The block cannot go on unless it is a key. -/
  required : Bool
  index : Nat
  line : Nat
  column : Nat
  deriving Repr

/-- A text that has been read in part. -/
structure Lexer where
  cursor : Cursor
  tokens : Array Token := #[]
  /-- The number of open brackets. -/
  flow : Nat := 0
  /-- The column of the block under way, and of the blocks around it. -/
  indent : Int := -1
  indents : List Int := []
  /-- A key may start here. -/
  keyAllowed : Bool := true
  /-- Possible keys by the number of open brackets. -/
  keys : List (Nat × KeyPlace) := []

namespace Lexer

def push (token : Token) (lexer : Lexer) : Lexer := { lexer with tokens := lexer.tokens.push token }

/-- Insert a token in front of others. -/
def insert (place : Nat) (token : Token) (lexer : Lexer) : Lexer :=
  { lexer with
    tokens := (lexer.tokens.extract 0 place).push token
      ++ lexer.tokens.extract place lexer.tokens.size }

/-- Pass spaces, comments and line breaks up to the next token. -/
def skipGapFuel : Nat → Lexer → Lexer
  | 0, lexer => lexer
  | fuel + 1, lexer =>
      let cursor := lexer.cursor.skipSpaces.skipComment
      if isBreak cursor.peek then
        skipGapFuel fuel
          { lexer with
            cursor := cursor.takeBreak.2
            keyAllowed := lexer.keyAllowed || lexer.flow == 0 }
      else { lexer with cursor := cursor }

/-- Pass a byte order mark at the start and everything up to the next token. -/
def skipGap (lexer : Lexer) : Lexer :=
  let cursor := lexer.cursor
  let cursor := if cursor.index = 0 ∧ cursor.peek = '\ufeff' then cursor.next else cursor
  skipGapFuel (cursor.rest.length + 1) { lexer with cursor := cursor }

/-- A possible key that can be none any more: keys are short and stand on one line. -/
def isStale (cursor : Cursor) (key : KeyPlace) : Bool :=
  key.line != cursor.line || key.index + 1024 < cursor.index

def dropStaleKeys (lexer : Lexer) : Except Fault Lexer :=
  if lexer.keys.any fun entry => isStale lexer.cursor entry.2 && entry.2.required then
    malformed .token
  else
    .ok { lexer with keys := lexer.keys.filter fun entry => !isStale lexer.cursor entry.2 }

/-- Forget the possible key inside the innermost bracket. -/
def dropKey (lexer : Lexer) : Except Fault Lexer :=
  match lexer.keys.lookup lexer.flow with
  | some key =>
      if key.required then malformed .token
      else .ok { lexer with keys := lexer.keys.filter fun entry => entry.1 != lexer.flow }
  | none => .ok lexer

/-- Remember that the next token may start a key. -/
def saveKey (lexer : Lexer) : Except Fault Lexer :=
  if lexer.keyAllowed then do
    let cursor := lexer.cursor
    let key : KeyPlace :=
      ⟨lexer.tokens.size, lexer.flow == 0 && lexer.indent == (cursor.column : Int),
        cursor.index, cursor.line, cursor.column⟩
    let lexer ← lexer.dropKey
    .ok { lexer with keys := (lexer.flow, key) :: lexer.keys }
  else .ok lexer

def closeBlocks (column : Int) (indent : Int) (tokens : Array Token) :
    List Int → Int × List Int × Array Token
  | [] => (indent, [], tokens)
  | outer :: indents =>
      if column < indent then closeBlocks column outer (tokens.push .blockEnd) indents
      else (indent, outer :: indents, tokens)

/-- Close the blocks that are indented further than a column; brackets suspend blocks. -/
def unwind (column : Int) (lexer : Lexer) : Lexer :=
  if lexer.flow = 0 then
    let (indent, indents, tokens) := closeBlocks column lexer.indent lexer.tokens lexer.indents
    { lexer with indent := indent, indents := indents, tokens := tokens }
  else lexer

/-- Open a block at a column unless the block under way is indented as far. -/
def openBlock (column : Nat) (lexer : Lexer) : Option Lexer :=
  if lexer.indent < column then
    some { lexer with indent := column, indents := lexer.indent :: lexer.indents }
  else none

def pass (width : Nat) (token : Token) (lexer : Lexer) : Lexer :=
  ({ lexer with cursor := lexer.cursor.skip width }).push token

def lexMark (token : Token) (lexer : Lexer) : Except Fault Lexer := do
  let lexer ← (lexer.unwind (-1)).dropKey
  .ok (({ lexer with keyAllowed := false }).pass 3 token)

def lexDirectiveLine (lexer : Lexer) : Except Fault Lexer := do
  let lexer ← (lexer.unwind (-1)).dropKey
  let (token, cursor) ← lexDirective lexer.cursor
  .ok (({ lexer with keyAllowed := false, cursor := cursor }).push token)

def lexEnd (lexer : Lexer) : Except Fault Lexer := do
  let lexer ← (lexer.unwind (-1)).dropKey
  .ok (lexer.push .streamEnd)

def lexOpen (token : Token) (lexer : Lexer) : Except Fault Lexer := do
  let lexer ← lexer.saveKey
  .ok (({ lexer with flow := lexer.flow + 1, keyAllowed := true }).pass 1 token)

def lexClose (token : Token) (lexer : Lexer) : Except Fault Lexer := do
  let lexer ← lexer.dropKey
  if lexer.flow = 0 then malformed .misplaced
  else .ok (({ lexer with flow := lexer.flow - 1, keyAllowed := false }).pass 1 token)

def lexComma (lexer : Lexer) : Except Fault Lexer := do
  let lexer ← lexer.dropKey
  .ok (({ lexer with keyAllowed := true }).pass 1 .flowEntry)

/-- Open a block for a mark outside brackets. -/
def openFor (start : Token) (lexer : Lexer) : Except Fault Lexer :=
  if lexer.flow = 0 then
    if lexer.keyAllowed then
      match lexer.openBlock lexer.cursor.column with
      | some opened => .ok (opened.push start)
      | none => .ok lexer
    else malformed .token
  else .ok lexer

def lexEntry (lexer : Lexer) : Except Fault Lexer := do
  let lexer ← lexer.openFor .blockSequenceStart
  let lexer ← ({ lexer with keyAllowed := true }).dropKey
  .ok (lexer.pass 1 .blockEntry)

def lexKey (lexer : Lexer) : Except Fault Lexer := do
  let lexer ← lexer.openFor .blockMappingStart
  let lexer ← ({ lexer with keyAllowed := lexer.flow == 0 }).dropKey
  .ok (lexer.pass 1 .key)

/-- The colon of a value. It turns the possible key in front of it into a key. -/
def lexValue (lexer : Lexer) : Except Fault Lexer :=
  match lexer.keys.lookup lexer.flow with
  | some key =>
      let keys := lexer.keys.filter fun entry => entry.1 != lexer.flow
      let marked := ({ lexer with keys := keys, keyAllowed := false }).insert key.place .key
      -- The key may open a block, and the start of the block goes in front of the key.
      let opened :=
        if lexer.flow = 0 then
          match marked.openBlock key.column with
          | some opened => opened.insert key.place .blockMappingStart
          | none => marked
        else marked
      .ok (opened.pass 1 .value)
  | none => do
      let lexer ← lexer.openFor .blockMappingStart
      let lexer ← ({ lexer with keyAllowed := lexer.flow == 0 }).dropKey
      .ok (lexer.pass 1 .value)

/-- A token that may start a key. -/
def lexItem (lex : Cursor → Except Fault (Token × Cursor)) (lexer : Lexer) :
    Except Fault Lexer := do
  let lexer ← lexer.saveKey
  let (token, cursor) ← lex lexer.cursor
  .ok (({ lexer with keyAllowed := false, cursor := cursor }).push token)

def lexLines (lexer : Lexer) : Except Fault Lexer := do
  let lexer ← ({ lexer with keyAllowed := true }).dropKey
  let (token, cursor) ← lexBlock lexer.indent lexer.cursor
  .ok (({ lexer with cursor := cursor }).push token)

def lexPlainItem (lexer : Lexer) : Except Fault Lexer := do
  let lexer ← lexer.saveKey
  let plain := lexPlain (lexer.flow != 0) (lexer.indent + 1) lexer.cursor
  .ok (({ lexer with keyAllowed := plain.brokeLine, cursor := plain.cursor }).push
    (.scalar plain.text true))

def startsPlain (lexer : Lexer) : Bool :=
  let c := lexer.cursor.peek
  (!isGap c && !"-?:,[]\x7b\x7d#&*!|>'\x22%@`".toList.contains c)
    || (!isGap (lexer.cursor.peekAt 1) && (c == '-' || (lexer.flow == 0 && (c == '?' || c == ':'))))

/-- The character at the cursor is a mark of its own: inside brackets always, outside of them in
front of a gap. -/
def isMark (lexer : Lexer) : Bool := lexer.flow != 0 || isGap (lexer.cursor.peekAt 1)

def lexNext (lexer : Lexer) : Except Fault Lexer :=
  let cursor := lexer.cursor
  let c := cursor.peek
  -- Marks of documents come first: each begins like a sequence entry or a plain scalar.
  if c = '%' ∧ cursor.column = 0 then lexer.lexDirectiveLine
  else if c = '-' ∧ cursor.column = 0 ∧ cursor.atMark '-' then lexer.lexMark .documentStart
  else if c = '.' ∧ cursor.column = 0 ∧ cursor.atMark '.' then lexer.lexMark .documentEnd
  else if c = '[' then lexer.lexOpen .flowSequenceStart
  else if c = '\x7b' then lexer.lexOpen .flowMappingStart
  else if c = ']' then lexer.lexClose .flowSequenceEnd
  else if c = '\x7d' then lexer.lexClose .flowMappingEnd
  else if c = ',' then lexer.lexComma
  else if c = '-' ∧ isGap (cursor.peekAt 1) then lexer.lexEntry
  else if c = '?' ∧ lexer.isMark then lexer.lexKey
  else if c = ':' ∧ lexer.isMark then lexer.lexValue
  else if c = '*' then lexer.lexItem fun cursor => do
    let (name, after) ← lexName cursor
    .ok (.reference name, after)
  else if c = '&' then lexer.lexItem fun cursor => do
    let (name, after) ← lexName cursor
    .ok (.anchor name, after)
  else if c = '!' then lexer.lexItem lexType
  else if (c = '|' ∨ c = '>') ∧ lexer.flow = 0 then lexer.lexLines
  else if c = '\x27' ∨ c = '\x22' then lexer.lexItem lexQuoted
  else if lexer.startsPlain then lexer.lexPlainItem
  else malformed .token

/-- Read all tokens; `fuel` exceeds the number of characters left. -/
def lexAllFuel : Nat → Lexer → Except Fault (List Token)
  | 0, _ => malformed .token
  | fuel + 1, lexer => do
      let lexer ← lexer.skipGap.dropStaleKeys
      let lexer := lexer.unwind lexer.cursor.column
      if lexer.cursor.atEnd then
        let lexer ← lexer.lexEnd
        .ok lexer.tokens.toList
      else
        let lexer ← lexer.lexNext
        lexAllFuel fuel lexer

end Lexer

def isDocumentChar (c : Char) : Bool :=
  let n := c.toNat
  n = 9 || n = 10 || n = 13 || (32 ≤ n && n ≤ 126) || n = 0x85 || (0xA0 ≤ n && n ≤ 0xD7FF)
    || (0xE000 ≤ n && n ≤ 0xFFFD) || 0x10000 ≤ n

def tokensOf (text : List Char) : Except Fault (List Token) :=
  if text.all isDocumentChar then 
    Lexer.lexAllFuel (text.length + 1) { cursor := { rest := text } }
  else malformed .unprintable

end SourceAtlas.Yaml
