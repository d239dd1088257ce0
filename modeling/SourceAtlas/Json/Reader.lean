import SourceAtlas.Json.Value
import SourceAtlas.Number.Decimal
import SourceAtlas.Text.Digit
import SourceAtlas.Text.Search

/-!
# Reading JSON

The reader takes the grammar strictly, except that it knows `NaN`, `Infinity` and `-Infinity`. Of
two fields of one name the last one counts. What cannot be read is reported with its place.
-/

namespace SourceAtlas.Json

open Text

/-- Why a text is not read. -/
inductive Fault
  | expectedValue
  | expectedName
  | expectedColon
  | expectedComma
  | extraData
  | unterminatedString
  | controlCharacter
  | unknownEscape
  | badCodeEscape
  /-- Too many decimal digits in one integer. -/
  | hugeInteger
  /-- Arrays and objects nest too deep. -/
  | tooDeep
  deriving DecidableEq, Repr

/-- A fault and its place, counted in characters from the start. -/
structure ReadError where
  fault : Fault
  position : Nat
  deriving DecidableEq, Repr

/-- A fault and the number of characters that remain from its place on. -/
structure Stop where
  fault : Fault
  remaining : Nat

/-- A reader of one item: the item and the rest of the text. -/
abbrev Reader (α : Type) : Type := List Char → Except Stop (α × List Char)

def stopAt {α : Type} (fault : Fault) (text : List Char) : Except Stop α :=
  .error ⟨fault, text.length⟩

def isSpace (c : Char) : Bool := c == ' ' || c == '\t' || c == '\n' || c == '\r'

def skipSpace (text : List Char) : List Char := text.dropWhile isSpace

/-- The value of four hexadecimal digits in front of at least one more character. -/
def codeEscape? : List Char → Option (Nat × List Char)
  | a :: b :: c :: d :: e :: rest => do
      let a ← hexValue? a
      let b ← hexValue? b
      let c ← hexValue? c
      let d ← hexValue? d
      some (((a * 16 + b) * 16 + c) * 16 + d, e :: rest)
  | _ => none

/-- The character that a letter after a backslash stands for. -/
def simpleEscape? : Char → Option Char
  | '\x22' => some '\x22'
  | '\\' => some '\\'
  | '/' => some '/'
  | 'b' => some '\x08'
  | 'f' => some '\x0c'
  | 'n' => some '\n'
  | 'r' => some '\r'
  | 't' => some '\t'
  | _ => none

/-- The codes of a string up to its closing quote; `start` is the number of characters that remain
from its opening quote on, and `fuel` is at least the length of the text. -/
def readCodesFuel (start : Nat) : Nat → Reader (List Nat)
  | 0, _ => .error ⟨.unterminatedString, start⟩
  | _ + 1, [] => .error ⟨.unterminatedString, start⟩
  | fuel + 1, c :: rest =>
      if c = '\x22' then .ok ([], rest)
      else if c = '\\' then
        match rest with
        | [] => .error ⟨.unterminatedString, start⟩
        | 'u' :: digits =>
            match codeEscape? digits with
            | none => stopAt .badCodeEscape rest
            | some (code, rest) => do
                let (codes, rest) ← readCodesFuel start fuel rest
                .ok (code :: codes, rest)
        | letter :: rest' =>
            match simpleEscape? letter with
            | none => stopAt .unknownEscape (c :: rest)
            | some d => do
                let (codes, rest) ← readCodesFuel start fuel rest'
                .ok (d.toNat :: codes, rest)
      else if c.toNat < 32 then stopAt .controlCharacter (c :: rest)
      else do
        let (codes, rest) ← readCodesFuel start fuel rest
        .ok (c.toNat :: codes, rest)

def readCodes : Reader (List Nat) := fun text =>
  readCodesFuel (text.length + 1) (text.length + 1) text

def isHighSurrogate (code : Nat) : Bool := 0xD800 ≤ code && code < 0xDC00

def isLowSurrogate (code : Nat) : Bool := 0xDC00 ≤ code && code < 0xE000

/-- Join surrogate pairs, from the left. -/
def joinSurrogates : List Nat → List Nat
  | high :: low :: rest =>
      if isHighSurrogate high && isLowSurrogate low then
        (0x10000 + (high - 0xD800) * 1024 + (low - 0xDC00)) :: joinSurrogates rest
      else high :: joinSurrogates (low :: rest)
  | codes => codes

/-- The text of a list of codes; a surrogate that is left has U+FFFD in its place. -/
def textOfCodes (codes : List Nat) : String :=
  String.ofList (codes.map fun code =>
    if isHighSurrogate code || isLowSurrogate code then Char.ofNat 0xFFFD else Char.ofNat code)

def markOfCode (code : Nat) : Mark :=
  if isHighSurrogate code || isLowSurrogate code then .surrogate code else .char (Char.ofNat code)

def stringOfCodes (codes : List Nat) : Json :=
  .ofDraft ⟨(joinSurrogates codes).map markOfCode⟩

/-- Split an exponent part off, if it has digits. -/
def splitExponent : List Char → List Char × List Char
  | [] => ([], [])
  | e :: rest =>
      if e = 'e' ∨ e = 'E' then
        let sign := match rest with
          | '+' :: _ => ['+']
          | '-' :: _ => ['-']
          | _ => []
        let digits := rest.drop sign.length
        match digits.takeWhile Char.isDigit with
        | [] => ([], e :: rest)
        | taken => (e :: sign ++ taken, digits.dropWhile Char.isDigit)
      else ([], e :: rest)

/-- Split a fraction off, if it has digits. -/
def splitFraction : List Char → List Char × List Char
  | '.' :: rest =>
      match rest.takeWhile Char.isDigit with
      | [] => ([], '.' :: rest)
      | taken => ('.' :: taken, rest.dropWhile Char.isDigit)
  | text => ([], text)

/-- Split the digits before a fraction off: a zero stands alone. -/
def splitWhole : List Char → List Char × List Char
  | '0' :: rest => (['0'], rest)
  | text => (text.takeWhile Char.isDigit, text.dropWhile Char.isDigit)

def readNumber : Reader Json := fun text =>
  let (sign, unsigned) := match text with
    | '-' :: rest => (['-'], rest)
    | rest => ([], rest)
  match splitWhole unsigned with
  | ([], _) => stopAt .expectedValue text
  | (whole, afterWhole) =>
      let (fraction, afterFraction) := splitFraction afterWhole
      let (exponent, rest) := splitExponent afterFraction
      if fraction.isEmpty && exponent.isEmpty then
        match Number.readInteger 10 (sign ++ whole) with
        | some n => .ok (.int n, rest)
        | none => stopAt .hugeInteger text
      else
        match Number.readDecimal (sign ++ whole ++ fraction ++ exponent) with
        | some x => .ok (.float x, rest)
        | none => stopAt .expectedValue text

def words : List (String × Json) :=
  [("null", .null), ("true", .bool true), ("false", .bool false), ("NaN", .float .nan),
   ("Infinity", .float (.infinite false)), ("-Infinity", .float (.infinite true))]

def readWord? (text : List Char) : Option (Json × List Char) :=
  words.findSome? fun (word, value) => (dropStart? word.toList text).map fun rest => (value, rest)

/-- Read items up to a closing bracket; the first one has to follow. -/
def readItemsFuel (item : Reader Json) : Nat → Reader (List Json)
  | 0, text => stopAt .expectedValue text
  | fuel + 1, text => do
      let (value, rest) ← item text
      match skipSpace rest with
      | ']' :: rest => .ok ([value], rest)
      | ',' :: rest => do
          let (values, rest) ← readItemsFuel item fuel (skipSpace rest)
          .ok (value :: values, rest)
      | rest => stopAt .expectedComma rest

/-- Read fields up to a closing brace; the first one has to follow. -/
def readFieldsFuel (item : Reader Json) : Nat → Reader (List (String × Json))
  | 0, text => stopAt .expectedName text
  | fuel + 1, text =>
      match text with
      | '\x22' :: quotedName => do
          let (codes, rest) ← readCodes quotedName
          match skipSpace rest with
          | ':' :: rest => do
              let (value, rest) ← item (skipSpace rest)
              let field := (textOfCodes (joinSurrogates codes), value)
              match skipSpace rest with
              | '\x7d' :: rest => .ok ([field], rest)
              | ',' :: rest => do
                  let (fields, rest) ← readFieldsFuel item fuel (skipSpace rest)
                  .ok (field :: fields, rest)
              | rest => stopAt .expectedComma rest
          | rest => stopAt .expectedColon rest
      | text => stopAt .expectedName text

/-- Read a value; arrays and objects may nest as deep as the first argument says. -/
def readValue : Nat → Reader Json
  | _, '\x22' :: text => do
      let (codes, rest) ← readCodes text
      .ok (stringOfCodes codes, rest)
  | 0, '[' :: text => stopAt .tooDeep text
  | 0, '\x7b' :: text => stopAt .tooDeep text
  | depth + 1, '[' :: text =>
      match skipSpace text with
      | ']' :: rest => .ok (.array [], rest)
      | text => do
          let (items, rest) ← readItemsFuel (readValue depth) (text.length + 1) text
          .ok (.array items, rest)
  | depth + 1, '\x7b' :: text =>
      match skipSpace text with
      | '\x7d' :: rest => .ok (.object [], rest)
      | text => do
          let (fields, rest) ← readFieldsFuel (readValue depth) (text.length + 1) text
          .ok (.object (fields.foldl (fun all field => setField field.1 field.2 all) []), rest)
  | _, text =>
      match readWord? text with
      | some found => .ok found
      | none => readNumber text

/-- Arrays and objects may nest this deep. -/
def maxDepth : Nat := 900

def read (text : List Char) : Except ReadError Json :=
  let result : Except Stop Json := do
    let (value, rest) ← readValue maxDepth (skipSpace text)
    match skipSpace rest with
    | [] => .ok value
    | rest => stopAt .extraData rest
  result.mapError fun stop => ⟨stop.fault, text.length - stop.remaining⟩

end SourceAtlas.Json
