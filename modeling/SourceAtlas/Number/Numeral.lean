import SourceAtlas.Text.CharRange
import SourceAtlas.Text.Digit
import SourceAtlas.Text.Quoted

/-!
# Numerals in text

A numeral may stand between blanks, may use the decimal digits of any script, and may separate
digits by single underscores.
-/

namespace SourceAtlas.Number

open SourceAtlas.Text

/-- The blanks of a pure ASCII numeral. -/
def isAsciiBlank (c : Char) : Bool := (9 ≤ c.toNat && c.toNat ≤ 13) || c == ' '

/-- Replace digits of other scripts by ASCII digits. -/
def asciiDigit (c : Char) : Char :=
  if c.toNat < 128 then c
  else match digitValue? c with
    | some d => Nat.digitChar d
    | none => c

/-- The numeral inside its blanks, in ASCII digits. The ASCII separators U+001C to U+001F are
blanks only next to text beyond ASCII. -/
def numeralBody (text : List Char) : List Char :=
  let blank := if text.all (·.toNat < 128) then isAsciiBlank else isBlank
  (((text.dropWhile blank).reverse.dropWhile blank).reverse).map asciiDigit

def digitInBase? (base : Nat) (c : Char) : Option Nat :=
  (hexValue? c).filter (· < base)

/-- Read digits with single underscores between them, after at least one digit. -/
def readDigits (base : Nat) (value count : Nat) : List Char → Option (Nat × Nat)
  | [] => some (value, count)
  | '_' :: c :: rest => do
      let d ← digitInBase? base c
      readDigits base (value * base + d) (count + 1) rest
  | c :: rest => do
      let d ← digitInBase? base c
      readDigits base (value * base + d) (count + 1) rest

/-- Read an unsigned numeral that starts with a digit: its value and the number of its digits. -/
def readMagnitude (base : Nat) : List Char → Option (Nat × Nat)
  | [] => none
  | c :: rest => do
      let d ← digitInBase? base c
      readDigits base d 1 rest

/-- The letter that may follow a leading zero to name the base. -/
def baseLetter? : Nat → Option Char
  | 16 => some 'x'
  | 8 => some 'o'
  | 2 => some 'b'
  | _ => none

/-- Drop the mark of the base: a zero, its letter, and an underscore if there is one. -/
def dropBaseMark (base : Nat) : List Char → List Char
  | '0' :: c :: rest =>
      if some c.toLower = baseLetter? base then
        match rest with
        | '_' :: rest => rest
        | rest => rest
      else '0' :: c :: rest
  | text => text

def splitSign : List Char → Bool × List Char
  | '-' :: rest => (true, rest)
  | '+' :: rest => (false, rest)
  | rest => (false, rest)

/-- A numeral in base ten may have this many digits. -/
def maxDecimalDigits : Nat := 4300

/-- Why a text is no integer. -/
inductive IntegerFault
  /-- The text is no numeral of the base. -/
  | malformed (base : Nat) (text : String)
  /-- The numeral has too many decimal digits. -/
  | tooLong (digits : Nat)
  deriving DecidableEq, Repr

/-- Read an integer numeral, an optional sign, an optional mark of the base, digits, or tell why
the text is none. -/
def parseInteger (base : Nat) (text : List Char) : Except IntegerFault Int :=
  let (negative, body) := splitSign (numeralBody text)
  match readMagnitude base (dropBaseMark base body) with
  | none => .error (.malformed base (String.ofList text))
  | some (value, digits) =>
      if base = 10 ∧ maxDecimalDigits < digits then .error (.tooLong digits)
      else .ok (if negative then -(value : Int) else value)

def readInteger (base : Nat) (text : List Char) : Option Int := (parseInteger base text).toOption

def limitAdvice : String := "use sys.set_int_max_str_digits() to increase the limit"

/-- The wording of a failure; a long text is shown in part. -/
def IntegerFault.message : IntegerFault → String
  | malformed base text =>
      "invalid literal for int() with base " ++ toString base ++ ": "
        ++ String.ofList ((quoted text).toList.take 200)
  | tooLong digits =>
      "Exceeds the limit (" ++ toString maxDecimalDigits
        ++ " digits) for integer string conversion: value has " ++ toString digits ++ " digits; "
        ++ limitAdvice

def tooLongToShow : String :=
  "Exceeds the limit (" ++ toString maxDecimalDigits
    ++ " digits) for integer string conversion; " ++ limitAdvice

/-- The decimal digits of an integer, unless there are too many to show. -/
def showInteger? (n : Int) : Option String :=
  let digits := Nat.toDigits 10 n.natAbs
  if maxDecimalDigits < digits.length then none
  else some (String.ofList (if n < 0 then '-' :: digits else digits))

end SourceAtlas.Number
