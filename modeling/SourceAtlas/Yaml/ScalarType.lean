import SourceAtlas.Number.Decimal
import SourceAtlas.Text.Case
import SourceAtlas.Text.Search
import SourceAtlas.Text.Split
import SourceAtlas.Yaml.Fault
import SourceAtlas.Yaml.Value

/-!
# Types of scalars

The type of a plain scalar is told by its text, and the text of a typed scalar is read as a value
of the type.
-/

namespace SourceAtlas.Yaml

inductive NodeType
  | null
  | bool
  | int
  | float
  | binary
  | timestamp
  | orderedMapping
  | pairs
  | set
  | text
  | sequence
  | mapping
  /-- The key that merges another mapping. -/
  | merge
  /-- The key of a default value. -/
  | default
  | other (name : String)
  deriving DecidableEq, Repr

namespace NodeType

/-- What the names of the known types start with. -/
def nameStart : String := "tag:yaml.org,2002:"

/-- The known types by the ends of their names. -/
def table : List (String × NodeType) :=
  [("null", null), ("bool", bool), ("int", int), ("float", float), ("binary", binary),
   ("timestamp", timestamp), ("omap", orderedMapping), ("pairs", pairs), ("set", set),
   ("str", text), ("seq", sequence), ("map", mapping), ("merge", merge), ("value", default)]

def ofName (name : String) : NodeType :=
  match Text.dropStart? nameStart.toList name.toList with
  | some rest => (table.lookup (String.ofList rest)).getD (other name)
  | none => other name

end NodeType

def truthWords : List (String × Bool) :=
  [("yes", true), ("no", false), ("true", true), ("false", false), ("on", true), ("off", false)]

/-- A word in lower case, in upper case, or capitalized. -/
def isSpelling (word text : List Char) : Bool :=
  text == word || text == word.map Char.toUpper
    || text == (word.take 1).map Char.toUpper ++ word.drop 1

def isDigitOrGap (c : Char) : Bool := c.isDigit || c == '_'

def isDigitRun : List Char → Bool
  | [] => false
  | c :: rest => c.isDigit && rest.all isDigitOrGap

def isRun (accepts : Char → Bool) (text : List Char) : Bool := !text.isEmpty && text.all accepts

/-- One or two digits below sixty. -/
def isSexagesimal : List Char → Bool
  | [c] => c.isDigit
  | [c, d] => '0' ≤ c && c ≤ '5' && d.isDigit
  | _ => false

/-- Digits with parts below sixty behind colons, at least one of them. -/
def isSexagesimalRun (first : List Char → Bool) (text : List Char) : Bool :=
  match Text.split ':' text with
  | head :: next :: rest => first head && (next :: rest).all isSexagesimal
  | _ => false

/-- An exponent with its sign, or nothing. -/
def isExponent : List Char → Bool
  | [] => true
  | e :: sign :: digits =>
      (e == 'e' || e == 'E') && (sign == '+' || sign == '-') && isRun Char.isDigit digits
  | _ => false

def isFraction (text : List Char) : Bool := isExponent (text.dropWhile isDigitOrGap)

def isFloatText (text : List Char) : Bool :=
  let body := (Number.splitSign text).2
  match body.span (· != '.') with
  | (_, []) => false
  | ([], _ :: rest) =>
      isSpelling "inf".toList rest
        || (body == text && ((rest.headD ' ').isDigit && isFraction rest))
        || (body == text && [['n', 'a', 'n'], ['N', 'a', 'N'], ['N', 'A', 'N']].contains rest)
  | (whole, _ :: rest) =>
      (isDigitRun whole && isFraction rest)
        || (isSexagesimalRun isDigitRun whole && rest.all isDigitOrGap)

/-- Digits that do not start with a zero. -/
def isPositiveRun (text : List Char) : Bool := isDigitRun text && text.head? != some '0'

def isOctal (c : Char) : Bool := '0' ≤ c && c ≤ '7'

/-- The text of an integer: binary, octal, decimal, hexadecimal, or with parts below sixty. -/
def isIntText (text : List Char) : Bool :=
  let body := (Number.splitSign text).2
  isPositiveRun body || isSexagesimalRun isPositiveRun body ||
    match body with
    | ['0'] => true
    | '0' :: 'b' :: rest => isRun (fun c => c == '0' || c == '1' || c == '_') rest
    | '0' :: 'x' :: rest => isRun (fun c => (Text.hexValue? c).isSome || c == '_') rest
    | '0' :: rest => isRun (fun c => isOctal c || c == '_') rest
    | _ => false

/-- A date and a time of day as they are written. -/
structure TimestampText where
  year : List Char
  month : List Char
  day : List Char
  /-- Hours, minutes, seconds. -/
  clock : Option (List Char × List Char × List Char) := none
  /-- A sign with the hours and the minutes of an offset. -/
  offset : Option (Bool × List Char × List Char) := none

/-- Take at least `least` and at most `most` digits. -/
def takeDigits (least most : Nat) (text : List Char) : Option (List Char × List Char) :=
  let digits := (text.take most).takeWhile Char.isDigit
  if digits.length < least then none else some (digits, text.drop digits.length)

def passChar (c : Char) : List Char → Option (List Char)
  | [] => none
  | d :: rest => if c = d then some rest else none

/-- The offset at the end of a timestamp: nothing, a `Z`, or a sign with hours and minutes. -/
def offsetText? (text : List Char) : Option (Option (Bool × List Char × List Char)) :=
  match text.dropWhile fun c => c == ' ' || c == '\t' with
  | [] => if text.isEmpty then some none else none
  | ['Z'] => some none
  | sign :: rest => do
      if sign ≠ '+' ∧ sign ≠ '-' then none
      else
        let (hours, rest) ← takeDigits 1 2 rest
        match rest with
        | [] => some (some (sign == '-', hours, []))
        | rest => do
            let rest ← passChar ':' rest
            let (minutes, rest) ← takeDigits 2 2 rest
            if rest.isEmpty then some (some (sign == '-', hours, minutes)) else none

/-- What separates the date from the time of day. -/
def passDateEnd : List Char → Option (List Char)
  | [] => none
  | c :: rest =>
      if c = 'T' ∨ c = 't' then some rest
      else if c = ' ' ∨ c = '\t' then some (rest.dropWhile fun c => c == ' ' || c == '\t')
      else none

def timestampText? (text : List Char) : Option TimestampText := do
  let (year, rest) ← takeDigits 4 4 text
  let rest ← passChar '-' rest
  let (month, rest) ← takeDigits 1 2 rest
  let rest ← passChar '-' rest
  let (day, rest) ← takeDigits 1 2 rest
  if rest.isEmpty then some { year := year, month := month, day := day }
  else
    let rest ← passDateEnd rest
    let (hour, rest) ← takeDigits 1 2 rest
    let rest ← passChar ':' rest
    let (minute, rest) ← takeDigits 2 2 rest
    let rest ← passChar ':' rest
    let (second, rest) ← takeDigits 2 2 rest
    let rest := match rest with
      | '.' :: rest => rest.dropWhile Char.isDigit
      | rest => rest
    let offset ← offsetText? rest
    some
      { year := year, month := month, day := day, clock := some (hour, minute, second),
        offset := offset }

/-- A text that is taken for a timestamp: a date alone has two digits each for month and day. -/
def isTimestampText (text : List Char) : Bool :=
  match timestampText? text with
  | some parts => parts.clock.isSome || (parts.month.length == 2 && parts.day.length == 2)
  | none => false

/-- A text without one line break at its end. -/
def dropFinalBreak (text : List Char) : List Char :=
  if text.getLast? = some '\n' then text.dropLast else text

def plainType (text : List Char) : NodeType :=
  let body := dropFinalBreak text
  if text.isEmpty then .null
  else if truthWords.any fun word => isSpelling word.1.toList body then .bool
  else if isFloatText body then .float
  else if isIntText body then .int
  else if body = ['<', '<'] then .merge
  else if body = ['~'] ∨ isSpelling "null".toList body then .null
  else if isTimestampText body then .timestamp
  else if body = ['='] then .default
  else if [['!'], ['&'], ['*']].contains body then .other "indicator"
  else .text

/-- Split the sign off a number and drop its underscores; a number needs something behind them. -/
def signedBody (text : List Char) : Except BadScalar (Bool × List Char) :=
  let kept := text.filter (· != '_')
  if kept.isEmpty then .error .emptyNumber else .ok (Number.splitSign kept)

def integerOf (base : Nat) (text : List Char) : Except BadScalar Int :=
  (Number.parseInteger base text).mapError .integer

/-- The value of parts below sixty, the last one first. -/
def sexagesimalInt : List Int → Int
  | [] => 0
  | part :: rest => part + 60 * sexagesimalInt rest

def readInt (text : List Char) : Except BadScalar Int := do
  let (negative, body) ← signedBody text
  let value ← match body with
    | [] => .error .emptyNumber
    | ['0'] => .ok 0
    | '0' :: 'b' :: digits => integerOf 2 digits
    | '0' :: 'x' :: digits => integerOf 16 digits
    | '0' :: _ => integerOf 8 body
    | _ =>
        if body.contains ':' then do
          let parts ← (Text.split ':' body).mapM (integerOf 10)
          .ok (sexagesimalInt parts.reverse)
        else integerOf 10 body
  .ok (if negative then -value else value)

def decimalOf (text : List Char) : Except BadScalar Number.Binary64 :=
  match Number.readDecimal text with
  | some x => .ok x
  | none => .error (.decimal (String.ofList text))

/-- The sum of parts below sixty, the last one first, each times its power of sixty. -/
def sexagesimalFloat (base : Int) (sum : Number.Binary64) :
    List Number.Binary64 → Except BadScalar Number.Binary64
  | [] => .ok sum
  | part :: rest =>
      match Number.Binary64.ofInt base with
      | .finite s m e => sexagesimalFloat (base * 60) (sum.add (part.mul (.finite s m e))) rest
      | _ => .error .hugeBase

def readFloat (text : List Char) : Except BadScalar Number.Binary64 := do
  let lowered := (Text.lower (String.ofList (text.filter (· != '_')))).toList
  let (negative, body) ← signedBody lowered
  let value ←
    if body = ".inf".toList then .ok (Number.Binary64.infinite false)
    else if body = ".nan".toList then .ok Number.Binary64.nan
    else if body.contains ':' then do
      let parts ← (Text.split ':' body).mapM decimalOf
      sexagesimalFloat 1 (.finite false 0 0) parts.reverse
    else decimalOf body
  .ok (if negative && body != ".nan".toList then value.negate else value)

def digitsNumber (digits : List Char) : Nat :=
  digits.foldl (fun n c => n * 10 + (c.toNat - 48)) 0

def daysInMonth (year month : Nat) : Nat :=
  if month = 2 then
    if year % 4 = 0 ∧ (year % 100 ≠ 0 ∨ year % 400 = 0) then 29 else 28
  else if [4, 6, 9, 11].contains month then 30 else 31

def checkDate (year month day : Nat) : Except BadDate Unit :=
  if year < 1 then .error (.year year)
  else if month < 1 ∨ 12 < month then .error .month
  else if day < 1 ∨ daysInMonth year month < day then .error .day
  else .ok ()

def checkClock (hour minute second : Nat) : Except BadDate Unit :=
  if 23 < hour then .error .hour
  else if 59 < minute then .error .minute
  else if 59 < second then .error .second
  else .ok ()

/-- Check an offset: it is less than a day. -/
def checkOffset (negative : Bool) (hours minutes : Nat) : Except BadDate Unit :=
  let size := hours * 3600 + minutes * 60
  if 86400 ≤ size then .error (.offset (if negative then -(size : Int) else size)) else .ok ()

/-- Check that a timestamp exists. -/
def checkTimestamp (parts : TimestampText) : Except BadDate Unit := do
  match parts.offset with
  | some (negative, hours, minutes) =>
      checkOffset negative (digitsNumber hours) (digitsNumber minutes)
  | none => .ok ()
  checkDate (digitsNumber parts.year) (digitsNumber parts.month) (digitsNumber parts.day)
  match parts.clock with
  | some (hour, minute, second) =>
      checkClock (digitsNumber hour) (digitsNumber minute) (digitsNumber second)
  | none => .ok ()

def readTimestamp (text : List Char) : Except BadScalar Value :=
  match timestampText? (dropFinalBreak text) with
  | some parts => ((checkTimestamp parts).map fun _ => Value.timestamp).mapError .date
  | none => .error .timestamp

def readTruth (text : List Char) : Except BadScalar Value :=
  match truthWords.lookup (Text.lower (String.ofList text)) with
  | some value => .ok (.bool value)
  | none => .error .truth

def base64Value? (c : Char) : Option Nat :=
  if 'A' ≤ c ∧ c ≤ 'Z' then some (c.toNat - 65)
  else if 'a' ≤ c ∧ c ≤ 'z' then some (c.toNat - 71)
  else if c.isDigit then some (c.toNat + 4)
  else if c = '+' then some 62
  else if c = '/' then some 63
  else none

/-- Read base 64. `place` is the number of digits in the group under way, `left` their bits that
are not used, and `pads` the number of fill characters met. Foreign characters are passed over. -/
def readBase64From (place left pads : Nat) : List Char → Option (List UInt8)
  | [] => if place = 0 then some [] else none
  | c :: rest =>
      if c = '=' then
        if 2 ≤ place then
          if 4 ≤ place + pads + 1 then some [] else readBase64From place left (pads + 1) rest
        else readBase64From place left pads rest
      else
        match base64Value? c with
        | none => readBase64From place left pads rest
        | some v =>
            match place with
            | 0 => readBase64From 1 v 0 rest
            | 1 => (readBase64From 2 (v % 16) 0 rest).map (UInt8.ofNat (left * 4 + v / 16) :: ·)
            | 2 => (readBase64From 3 (v % 4) 0 rest).map (UInt8.ofNat (left * 16 + v / 4) :: ·)
            | _ => (readBase64From 0 0 0 rest).map (UInt8.ofNat (left * 64 + v) :: ·)

def readBinary (text : List Char) : Except Fault Value :=
  if text.all (·.toNat < 128) then
    match readBase64From 0 0 0 text with
    | some bytes => .ok (.bytes bytes)
    | none => .error (.malformed .badBinary)
  else .error (.malformed .badBinary)

/-- The value of a scalar of a type, unless scalars cannot have the type. -/
def readScalar (type : NodeType) (text : List Char) : Except Fault Value :=
  match type with
  | .null => .ok .null
  | .bool => (readTruth text).mapError .badScalar
  | .int => ((readInt text).map Value.int).mapError .badScalar
  | .float => ((readFloat text).map Value.float).mapError .badScalar
  | .binary => readBinary text
  | .timestamp => (readTimestamp text).mapError .badScalar
  | .text => .ok (.text (String.ofList text))
  | .merge | .default | .other _ => .error (.malformed .unknownType)
  | .orderedMapping | .pairs | .set | .sequence | .mapping => .error (.malformed .wrongShape)

end SourceAtlas.Yaml
