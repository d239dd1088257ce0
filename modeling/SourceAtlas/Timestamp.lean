import SourceAtlas.Number.Binary64
import SourceAtlas.Text.Search
import SourceAtlas.Text.Split

/-!
# Timestamps

A moment on the clock of some offset from universal time, to the microsecond, and its text.
-/

namespace SourceAtlas

structure Timestamp where
  /-- Microseconds on the local clock since the start of 1970. -/
  micros : Int
  /-- How many microseconds the local clock is ahead of universal time, if that is known. -/
  offset : Option Int := some 0
  deriving DecidableEq, Repr, Inhabited

namespace Timestamp

def second : Int := 1000000

def day : Int := 86400 * second

/-- The year, month and day of a day counted from the start of 1970. Years are taken from March on,
so that a leap day is the last day of its year. -/
def dateOfDay (days : Int) : Int × Int × Int :=
  let z := days + 719468
  let era := z.fdiv 146097
  let dayOfEra := z - era * 146097
  let yearOfEra :=
    (dayOfEra - dayOfEra / 1460 + dayOfEra / 36524 - dayOfEra / 146096) / 365
  let dayOfYear := dayOfEra - (365 * yearOfEra + yearOfEra / 4 - yearOfEra / 100)
  let month := (5 * dayOfYear + 2) / 153
  let dayOfMonth := dayOfYear - (153 * month + 2) / 5 + 1
  let year := yearOfEra + era * 400
  if month < 10 then (year, month + 3, dayOfMonth) else (year + 1, month - 9, dayOfMonth)

/-- The day counted from the start of 1970 of a year, month and day. -/
def dayOfDate (year month dayOfMonth : Int) : Int :=
  let y := if month ≤ 2 then year - 1 else year
  let era := y.fdiv 400
  let yearOfEra := y - era * 400
  let shifted := if 2 < month then month - 3 else month + 9
  let dayOfYear := (153 * shifted + 2) / 5 + dayOfMonth - 1
  era * 146097 + (yearOfEra * 365 + yearOfEra / 4 - yearOfEra / 100 + dayOfYear) - 719468

def padded (width : Nat) (n : Int) : String :=
  let digits := Nat.toDigits 10 n.natAbs
  String.ofList (List.replicate (width - digits.length) '0' ++ digits)

/-- Hours, minutes and seconds of a time of day. -/
def clock (micros : Int) : String :=
  let seconds := micros / second
  padded 2 (seconds / 3600) ++ ":" ++ padded 2 (seconds / 60 % 60) ++ ":" ++ padded 2 (seconds % 60)

/-- A fraction of a second, unless it is zero. -/
def fraction (micros : Int) : String :=
  if micros % second = 0 then "" else "." ++ padded 6 (micros % second)

/-- An offset with its sign; seconds are shown if there are any. -/
def offsetText (offset : Int) : String :=
  let size : Int := offset.natAbs
  let minutes := size / (60 * second)
  (if offset < 0 then "-" else "+") ++ padded 2 (minutes / 60) ++ ":" ++ padded 2 (minutes % 60)
    ++ (if size % (60 * second) = 0 then ""
        else ":" ++ padded 2 (size / second % 60) ++ fraction size)

/-- An offset as records show it: a leading `+00:00` is written `Z`. -/
def recordOffsetText (offset : Int) : String :=
  match Text.dropStart? "+00:00".toList (offsetText offset).toList with
  | some rest => String.ofList ('Z' :: rest)
  | none => offsetText offset

/-- The date and time of day, to the second or to the microsecond, with an offset behind. -/
def textWith (withFraction : Bool) (offsetText : Int → String) (timestamp : Timestamp) : String :=
  let (year, month, dayOfMonth) := dateOfDay (timestamp.micros.fdiv day)
  let time := timestamp.micros.fmod day
  padded 4 year ++ "-" ++ padded 2 month ++ "-" ++ padded 2 dayOfMonth ++ "T" ++ clock time
    ++ (if withFraction then fraction time else "")
    ++ (timestamp.offset.map offsetText).getD ""

def shortText : Timestamp → String := textWith false offsetText

def recordText : Timestamp → String := textWith true recordOffsetText

/-- The years that a timestamp can show. -/
def isShowable (micros : Int) : Bool :=
  let year := (dateOfDay (micros.fdiv day)).1
  1 ≤ year && year ≤ 9999

/-- The modification time of a file, kept in a double as seconds and a fraction. -/
def storedSeconds (micros : Int) : Number.Binary64 :=
  (Number.Binary64.ofInt (micros.fdiv second)).add
    ((Number.Binary64.ofRatio false 1 1000000000).mul
      (Number.Binary64.ofInt (micros.fmod second * 1000)))

/-- The microseconds of a double of seconds: the whole part exactly, and the rest rounded. -/
def microsOfSeconds : Number.Binary64 → Int
  | .finite negative mantissa exponent =>
      let units := Number.Binary64.units mantissa exponent
      let whole := units / Number.Binary64.unit
      let rest := Number.Binary64.ofUnits false (units % Number.Binary64.unit) 1
      let micros := match rest.mul (Number.Binary64.ofNat 1000000) with
        | .finite _ m e => Number.Binary64.roundQuotient (Number.Binary64.units m e)
            Number.Binary64.unit
        | _ => 0
      let total : Int := whole * second + micros
      if negative then -total else total
  | _ => 0

/-- The timestamp of a modification time, given in microseconds since the start of 1970. -/
def ofModification? (micros : Int) : Option Timestamp :=
  let micros := microsOfSeconds (storedSeconds micros)
  if isShowable micros then some ⟨micros, some 0⟩ else none

/-- The year of a modification time that no timestamp can show. -/
def yearOfModification (micros : Int) : Int :=
  (dateOfDay ((microsOfSeconds (storedSeconds micros)).fdiv day)).1

def number? (digits : List Char) : Option Int :=
  if digits.isEmpty || !digits.all Char.isDigit then none
  else some (digits.foldl (fun n c => n * 10 + ((c.toNat - 48 : Nat) : Int)) 0)

/-- Read a time of day: hours, then minutes, seconds and a fraction if they are given. -/
def readClock (text : List Char) : Option Int := do
  let whole := text.takeWhile (· != '.')
  let rest := (text.dropWhile (· != '.')).drop 1
  let parts ← (Text.split ':' whole).mapM number?
  let fraction ← if rest.isEmpty then some 0 else number? ((rest ++ List.replicate 6 '0').take 6)
  match parts with
  | [hours] => some ((hours * 3600) * second + fraction)
  | [hours, minutes] => some ((hours * 3600 + minutes * 60) * second + fraction)
  | [hours, minutes, seconds] =>
      some ((hours * 3600 + minutes * 60 + seconds) * second + fraction)
  | _ => none

/-- Read an offset behind the time of day. -/
def readOffset : List Char → Option (Option Int)
  | [] => some none
  | 'Z' :: [] => some (some 0)
  | '+' :: rest => (readClock rest).map some
  | '-' :: rest => (readClock rest).map fun offset => some (-offset)
  | _ => none

def startsOffset (c : Char) : Bool := c == 'Z' || c == '+' || c == '-'

def read? (text : String) : Option Timestamp := do
  let chars := text.toList
  let date ← (Text.split '-' (chars.take 10)).mapM number?
  let rest := chars.drop 11
  let time ← if rest.isEmpty then some 0 else readClock (rest.takeWhile fun c => !startsOffset c)
  let offset ← readOffset (rest.dropWhile fun c => !startsOffset c)
  match date with
  | [year, month, dayOfMonth] => some ⟨dayOfDate year month dayOfMonth * day + time, offset⟩
  | _ => none

end Timestamp

end SourceAtlas
