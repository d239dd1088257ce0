import SourceAtlas.Number.Binary64
import SourceAtlas.Number.Numeral

/-!
# Decimal fractions

Reading a decimal fraction as the nearest double, and writing a double with the fewest digits that
read back.
-/

namespace SourceAtlas.Number

open SourceAtlas.Text

/-- Remove underscores, each of which has to stand between two digits. -/
def dropUnderscores (before : Char) : List Char → Option (List Char)
  | [] => if before = '_' then none else some []
  | '_' :: rest => if before.isDigit then dropUnderscores '_' rest else none
  | c :: rest =>
      if before = '_' ∧ ¬ c.isDigit then none
      else (dropUnderscores c rest).map (c :: ·)

def digitsValue (digits : List Char) : Nat :=
  digits.foldl (fun n c => n * 10 + (c.toNat - 48)) 0

def tenPow (exponent : Nat) : Nat := Nat.pow 10 exponent

/-- The double nearest to `digits * 10 ^ exponent`. Exponents far outside the range of doubles are
settled without computing the power. -/
def ofScientific (negative : Bool) (digits : List Char) (exponent : Int) : Binary64 :=
  let digits := digits.dropWhile (· == '0')
  let n := digitsValue digits
  let magnitude : Int := digits.length + exponent
  if n = 0 ∨ magnitude < -330 then .finite negative 0 0
  else if 330 < magnitude then .infinite negative
  else if 0 ≤ exponent then Binary64.ofRatio negative (n * tenPow exponent.toNat) 1
  else Binary64.ofRatio negative n (tenPow (-exponent).toNat)

/-- Read an exponent part, or nothing. -/
def readExponent : List Char → Option Int
  | [] => some 0
  | c :: rest =>
      if c = 'e' ∨ c = 'E' then
        let (negative, digits) := match rest with
          | '-' :: digits => (true, digits)
          | '+' :: digits => (false, digits)
          | digits => (false, digits)
        if digits.isEmpty || !digits.all Char.isDigit then none
        else some (if negative then -(digitsValue digits : Int) else digitsValue digits)
      else none

/-- Read an unsigned decimal fraction. -/
def readUnsigned (negative : Bool) (text : List Char) : Option Binary64 := do
  let whole := text.takeWhile Char.isDigit
  let rest := text.dropWhile Char.isDigit
  let (fraction, rest) := match rest with
    | '.' :: rest => (rest.takeWhile Char.isDigit, rest.dropWhile Char.isDigit)
    | rest => ([], rest)
  if whole.isEmpty && fraction.isEmpty then none
  else
    let exponent ← readExponent rest
    some (ofScientific negative (whole ++ fraction) (exponent - fraction.length))

/-- Read a decimal fraction, an infinity or a NaN, with an optional sign. -/
def readDecimal (text : List Char) : Option Binary64 := do
  let body ← dropUnderscores ' ' (numeralBody text)
  let (negative, rest) := match body with
    | '-' :: rest => (true, rest)
    | '+' :: rest => (false, rest)
    | rest => (false, rest)
  let word := String.ofList (rest.map Char.toLower)
  if word = "inf" ∨ word = "infinity" then some (.infinite negative)
  else if word = "nan" then some .nan
  else readUnsigned negative rest

/-- Twice the distance from a double to the ends of the interval that rounds to it, in smallest
units: below and above. The gap below a power of two is half as wide. -/
def gaps (m e : Nat) : Nat × Nat :=
  let gap := Binary64.twoPow e
  if m = Binary64.twoPow 52 ∧ 0 < e then (Binary64.twoPow (e - 1), gap) else (gap, gap)

/-- Whether the decimal `digits * 10 ^ exponent` rounds to the positive double `m * 2 ^ e`. -/
def readsBack (m e : Nat) (digits : Nat) (exponent : Int) : Bool :=
  let (below, above) := gaps m e
  let value := Binary64.units m e
  let num := if 0 ≤ exponent then digits * tenPow exponent.toNat * Binary64.unit
    else digits * Binary64.unit
  let den := if 0 ≤ exponent then 1 else tenPow (-exponent).toNat
  let low := (2 * value - below) * den
  let high := (2 * value + above) * den
  if m % 2 = 0 then low ≤ 2 * num && 2 * num ≤ high else low < 2 * num && 2 * num < high

/-- The decimal grid neighbours of a positive double at a given exponent: its floor on the grid and
the doubled remainder compared with the step. -/
def gridFloor (m e : Nat) (exponent : Int) : Nat × Ordering :=
  let value := Binary64.units m e
  let num := if 0 ≤ exponent then value else value * tenPow (-exponent).toNat
  let den := if 0 ≤ exponent then Binary64.unit * tenPow exponent.toNat else Binary64.unit
  (num / den, compare (2 * (num % den)) den)

/-- The digits on one grid that read back: of two candidates the nearer, of a tie the even one. -/
def onGrid (m e : Nat) (exponent : Int) : Option Nat :=
  let (low, side) := gridFloor m e exponent
  let lowHit := readsBack m e low exponent && low != 0
  let highHit := readsBack m e (low + 1) exponent
  match lowHit, highHit with
  | true, true =>
      match side with
      | .lt => some low
      | .gt => some (low + 1)
      | .eq => if low % 2 = 0 then some low else some (low + 1)
  | true, false => some low
  | false, true => some (low + 1)
  | false, false => none

/-- The number of decimal digits before the point of a positive double, minus the zeros after it:
the double lies in `[10 ^ (p - 1), 10 ^ p)`. -/
def decimalPoint (m e : Nat) : Int :=
  let value := Binary64.units m e
  if Binary64.unit ≤ value then ((Nat.toDigits 10 (value / Binary64.unit)).length : Int)
  else
    -- the double is `1 / inverse`, up to a factor below ten
    let inverse := Binary64.unit / value
    let digits := (Nat.toDigits 10 inverse).length
    let p : Int := 1 - (digits : Int)
    if tenPow (digits - 1) * value < Binary64.unit then p
    else p + 1

/-- The shortest digits that read back, with the place of the decimal point: search the grids of
one digit, two digits and so on. -/
def shortestFrom (m e : Nat) (point : Int) (count : Nat) : Nat → Nat × Int
  | 0 => (0, 0)
  | fuel + 1 =>
      let exponent := point - count
      match onGrid m e exponent with
      | some digits => (digits, exponent)
      | none => shortestFrom m e point (count + 1) fuel

/-- The fewest digits that read back as the positive double, and their exponent. -/
def shortest (m e : Nat) : Nat × Int := shortestFrom m e (decimalPoint m e) 1 18

/-- Remove trailing zeros, raising the exponent. -/
def dropTrailingZeros (digits : List Char) (exponent : Int) : List Char × Int :=
  let kept := (digits.reverse.dropWhile (· == '0')).reverse
  (kept, exponent + (digits.length - kept.length : Nat))

/-- Lay out digits: positional between 1e-4 and 1e16, otherwise with an exponent of at least two
digits. -/
def layOut (digits : List Char) (exponent : Int) : List Char :=
  let point : Int := digits.length + exponent
  if -4 < point ∧ point ≤ 16 then
    if point ≤ 0 then '0' :: '.' :: List.replicate (-point).toNat '0' ++ digits
    else if exponent ≥ 0 then digits ++ List.replicate exponent.toNat '0' ++ ['.', '0']
    else digits.take point.toNat ++ '.' :: digits.drop point.toNat
  else
    let fraction := match digits with
      | [] => []
      | [d] => [d]
      | d :: rest => d :: '.' :: rest
    let power := point - 1
    let powerDigits := Nat.toDigits 10 power.natAbs
    fraction ++ ['e', if power < 0 then '-' else '+']
      ++ List.replicate (2 - powerDigits.length) '0' ++ powerDigits

/-- The text of a double: the fewest digits that read back, always with a point or an exponent. -/
def showDecimal : Binary64 → String
  | .nan => "nan"
  | .infinite negative => if negative then "-inf" else "inf"
  | .finite negative m e =>
      let body :=
        if m = 0 then ['0', '.', '0']
        else
          let (digits, exponent) := shortest m e
          let (digits, exponent) := dropTrailingZeros (Nat.toDigits 10 digits) exponent
          layOut digits exponent
      String.ofList (if negative then '-' :: body else body)

end SourceAtlas.Number
