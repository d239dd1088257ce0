import SourceAtlas.Number.Numeral

/-!
# Faults of YAML texts

A text can be malformed as a whole, or hold a scalar whose text is no value of its type.
-/

namespace SourceAtlas.Yaml

/-- Why a text is no single YAML document. -/
inductive Malformed
  /-- A character that no document holds. -/
  | unprintable
  /-- A sequence of characters that is no token. -/
  | token
  /-- A token where it has no place. -/
  | misplaced
  | undefinedHandle
  | undefinedAlias
  | duplicateAnchor
  | furtherDocument
  /-- A type that is not known. -/
  | unknownType
  /-- A type that the node cannot have. -/
  | wrongShape
  /-- A mapping key that is a collection. -/
  | collectionKey
  | badMerge
  | badBinary
  deriving DecidableEq, Repr

/-- A date or time of day out of its range. -/
inductive BadDate
  | year (year : Nat)
  | month
  | day
  | hour
  | minute
  | second
  /-- An offset of a day or more, in seconds. -/
  | offset (seconds : Int)
  deriving DecidableEq, Repr

/-- Why the text of a scalar is no value of its type. -/
inductive BadScalar
  | integer (fault : Number.IntegerFault)
  | decimal (text : String)
  /-- Nothing is left of a number without its sign. -/
  | emptyNumber
  /-- No word for true or false. -/
  | truth
  | timestamp
  | date (fault : BadDate)
  /-- A number beyond the last character. -/
  | character (code : Nat)
  /-- A power of sixty beyond the doubles. -/
  | hugeBase
  /-- A timestamp that is a mapping. -/
  | noText
  deriving DecidableEq, Repr

/-- Why a text is not read. -/
inductive Fault
  | malformed (cause : Malformed)
  | badScalar (cause : BadScalar)
  /-- Collections nest too deep. -/
  | tooDeep
  deriving DecidableEq, Repr

/-- The parts of an interval of time in messages: days and seconds. -/
def intervalText (seconds : Int) : String :=
  let days := seconds.fdiv 86400
  let rest := seconds.fmod 86400
  let parts := (if days = 0 then [] else ["days=" ++ toString days])
    ++ (if rest = 0 then [] else ["seconds=" ++ toString rest])
  "datetime.timedelta(" ++ (if parts.isEmpty then "0" else ", ".intercalate parts) ++ ")"

def BadDate.message : BadDate → String
  | year n => "year " ++ toString n ++ " is out of range"
  | month => "month must be in 1..12"
  | day => "day is out of range for month"
  | hour => "hour must be in 0..23"
  | minute => "minute must be in 0..59"
  | second => "second must be in 0..59"
  | offset seconds =>
      "offset must be a timedelta strictly between -timedelta(hours=24) and timedelta(hours=24), not "
        ++ intervalText seconds ++ "."

/-- The wording of a failure, if it is a value out of range or a text that is no number. -/
def BadScalar.message? : BadScalar → Option String
  | integer fault => some fault.message
  | decimal text => some ("could not convert string to float: " ++ Text.quoted text)
  | date fault => some fault.message
  | character code => if code < 2147483648 then some "chr() arg not in range(0x110000)" else none
  | _ => none

end SourceAtlas.Yaml
