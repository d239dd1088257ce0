import SourceAtlas.Text.Digit
import SourceAtlas.Text.Utf8
import SourceAtlas.Yaml.Cursor
import SourceAtlas.Yaml.Fault
import SourceAtlas.Yaml.Token

/-!
# Names, types and directives in YAML

How anchors, types and directives are spelled.
-/

namespace SourceAtlas.Yaml

def malformed {α : Type} (cause : Malformed) : Except Fault α := .error (.malformed cause)

def isNameChar (c : Char) : Bool := c.isAlphanum || c == '-' || c == '_'

def isTypeChar (c : Char) : Bool := c.isAlphanum || "-;/?:@&=+$,_.!~*'()[]%".toList.contains c

def endsName (c : Char) : Bool := isGap c || "?:,]\x7d%@`".toList.contains c

/-- The name of an anchor, whose mark stands here. -/
def lexName (cursor : Cursor) : Except Fault (String × Cursor) :=
  let (name, cursor) := cursor.next.takeWhile isNameChar
  if name.isEmpty || !endsName cursor.peek then malformed .token
  else .ok (String.ofList name, cursor)

/-- Two hexadecimal digits behind a percent sign. -/
def escapedByte? : List Char → Option UInt8
  | '%' :: a :: b :: _ => do
      let a ← Text.hexValue? a
      let b ← Text.hexValue? b
      some (UInt8.ofNat (a * 16 + b))
  | _ => none

/-- A run of escaped bytes; `fuel` is at least the length of the text. -/
def escapedBytesFuel : Nat → List Char → Option (List UInt8)
  | 0, _ => some []
  | fuel + 1, text =>
      if text.head? = some '%' then do
        let b ← escapedByte? text
        let bytes ← escapedBytesFuel fuel (text.drop 3)
        some (b :: bytes)
      else some []

/-- The name of a type with its escapes resolved; `fuel` is at least its length. -/
def unescapeTypeFuel : Nat → List Char → Option (List Char)
  | 0, _ => some []
  | _ + 1, [] => some []
  | fuel + 1, c :: rest =>
      if c = '%' then do
        let bytes ← escapedBytesFuel (rest.length + 1) (c :: rest)
        let chars ← (Text.Utf8.decode bytes).toOption
        let others ← unescapeTypeFuel fuel ((c :: rest).drop (3 * bytes.length))
        some (chars ++ others)
      else (unescapeTypeFuel fuel rest).map (c :: ·)

def lexTypeName (cursor : Cursor) : Except Fault (String × Cursor) :=
  let (text, after) := cursor.takeWhile isTypeChar
  if text.isEmpty then malformed .token
  else match unescapeTypeFuel (text.length + 1) text with
    | some name => .ok (String.ofList name, after)
    | none => malformed .token

/-- A handle of types: one mark, or a name between two of them. -/
def lexHandle (cursor : Cursor) : Except Fault (String × Cursor) :=
  if cursor.peek ≠ '!' then malformed .token
  else
    let (name, after) := cursor.next.takeWhile isNameChar
    if after.peek = '!' then .ok (String.ofList ('!' :: name ++ ['!']), after.next)
    else if name.isEmpty && after.peek == ' ' then .ok ("!", after)
    else malformed .token

/-- The text before the next gap has another mark behind the first one. -/
def hasHandle (cursor : Cursor) : Bool :=
  (cursor.next.rest.takeWhile fun c => !isSpaceOrEnd c).contains '!'

/-- A type, whose mark stands here: in angle brackets, with a handle, or the bare mark. -/
def lexType (cursor : Cursor) : Except Fault (Token × Cursor) := do
  let c := cursor.peekAt 1
  let (token, after) ←
    if c = '<' then do
      let (name, after) ← lexTypeName (cursor.skip 2)
      if after.peek ≠ '>' then malformed .token
      else .ok (Token.type none name, after.next)
    else if isGap c then .ok (Token.type none "!", cursor.next)
    else if hasHandle cursor then do
      let (handle, after) ← lexHandle cursor
      let (name, after) ← lexTypeName after
      .ok (Token.type (some handle) name, after)
    else do
      let (name, after) ← lexTypeName cursor.next
      .ok (Token.type (some "!") name, after)
  if isSpaceOrEnd after.peek then .ok (token, after) else malformed .token

def lexVersionNumber (cursor : Cursor) : Except Fault (Nat × Cursor) :=
  let (digits, after) := cursor.takeWhile Char.isDigit
  if digits.isEmpty then malformed .token
  else .ok (digits.foldl (fun n c => n * 10 + (c.toNat - 48)) 0, after)

def lexVersion (cursor : Cursor) : Except Fault (Directive × Cursor) := do
  let (major, after) ← lexVersionNumber cursor.skipSpaces
  if after.peek ≠ '.' then malformed .token
  else
    let (minor, after) ← lexVersionNumber after.next
    if isSpaceOrEnd after.peek then .ok (.version major minor, after) else malformed .token

def lexHandleDirective (cursor : Cursor) : Except Fault (Directive × Cursor) := do
  let (handle, after) ← lexHandle cursor.skipSpaces
  if after.peek ≠ ' ' then malformed .token
  else
    let (start, after) ← lexTypeName after.skipSpaces
    if isSpaceOrEnd after.peek then .ok (.handle handle start, after) else malformed .token

/-- Pass spaces, a comment and the end of a line. -/
def endLine (cursor : Cursor) : Except Fault Cursor :=
  let after := cursor.skipSpaces.skipComment
  if isBreakOrEnd after.peek then .ok after.takeBreak.2 else malformed .token

def lexDirective (cursor : Cursor) : Except Fault (Token × Cursor) := do
  let (name, after) := cursor.next.takeWhile isNameChar
  if name.isEmpty || !isSpaceOrEnd after.peek then malformed .token
  else
    let (directive, after) ←
      if name = "YAML".toList then lexVersion after
      else if name = "TAG".toList then lexHandleDirective after
      else .ok (Directive.other, after.skipWhile fun c => !isBreak c)
    let after ← endLine after
    .ok (.directive directive, after)

end SourceAtlas.Yaml
