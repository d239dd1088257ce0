/-!
# Binary64 numbers

Doubles as exact values: a finite one is a mantissa times a power of two. Every operation computes
the exact result and rounds it once, to nearest with ties to even.
-/

namespace SourceAtlas.Number

/-- A double. `finite negative m e` is `m * 2 ^ e / 2 ^ 1074`, with a minus sign if `negative`. -/
inductive Binary64
  | finite (negative : Bool) (mantissa exponent : Nat)
  | infinite (negative : Bool)
  | nan
  deriving DecidableEq, Repr, Inhabited

namespace Binary64

def twoPow (exponent : Nat) : Nat := Nat.pow 2 exponent

/-- The scale of the smallest positive double. -/
def unit : Nat := twoPow 1074

/-- Mantissas stay below this. -/
def mantissaLimit : Nat := twoPow 53

/-- The largest exponent of a finite double. -/
def maxExponent : Nat := 2045

/-- The integer nearest to a quotient; a tie goes to the even neighbour. -/
def roundQuotient (num den : Nat) : Nat :=
  let q := num / den
  let r := num % den
  if 2 * r < den then q
  else if den < 2 * r then q + 1
  else if q % 2 = 0 then q else q + 1

/-- The exponent at which a quotient, in smallest units, has a mantissa of 53 bits. -/
def exponentFor (num den : Nat) : Nat := Nat.log2 (num / den) - 52

/-- The double nearest to a quotient given in smallest units. -/
def ofUnits (negative : Bool) (num den : Nat) : Binary64 :=
  let e := exponentFor num den
  let m := roundQuotient num (den * twoPow e)
  let (m, e) := if m = mantissaLimit then (m / 2, e + 1) else (m, e)
  if maxExponent < e then .infinite negative else .finite negative m e

/-- The double nearest to a quotient. -/
def ofRatio (negative : Bool) (num den : Nat) : Binary64 := ofUnits negative (num * unit) den

def ofNat (n : Nat) : Binary64 := ofRatio false n 1

def ofInt (n : Int) : Binary64 := ofRatio (n < 0) n.natAbs 1

/-- The magnitude of a finite double in smallest units. -/
def units (mantissa exponent : Nat) : Nat := mantissa * twoPow exponent

/-- The value of a finite double in smallest units. -/
def signedUnits (negative : Bool) (mantissa exponent : Nat) : Int :=
  if negative then -(units mantissa exponent : Int) else units mantissa exponent

def isNegative : Binary64 → Bool
  | finite negative _ _ => negative
  | infinite negative => negative
  | nan => false

def negate : Binary64 → Binary64
  | finite negative m e => finite (!negative) m e
  | infinite negative => infinite (!negative)
  | nan => nan

def isZero : Binary64 → Bool
  | finite _ m _ => m == 0
  | _ => false

/-- The double nearest to a sum. -/
def add : Binary64 → Binary64 → Binary64
  | nan, _ => nan
  | _, nan => nan
  | infinite s, infinite t => if s = t then infinite s else nan
  | infinite s, _ => infinite s
  | _, infinite t => infinite t
  | finite s m e, finite t n f =>
      let total := signedUnits s m e + signedUnits t n f
      if total = 0 then finite (s && t) 0 0 else ofUnits (total < 0) total.natAbs 1

/-- The double nearest to a product. -/
def mul (x y : Binary64) : Binary64 :=
  match x, y with
  | nan, _ => nan
  | _, nan => nan
  | infinite s, y => if y.isZero then nan else infinite (s != y.isNegative)
  | x, infinite t => if x.isZero then nan else infinite (x.isNegative != t)
  | finite s m e, finite t n f => ofUnits (s != t) (units m e * units n f) unit

/-- Order of doubles; nothing is comparable to a NaN. -/
def le : Binary64 → Binary64 → Bool
  | nan, _ => false
  | _, nan => false
  | infinite s, infinite t => s || !t
  | infinite s, finite .. => s
  | finite .., infinite t => !t
  | finite s m e, finite t n f => signedUnits s m e ≤ signedUnits t n f

def lt (x y : Binary64) : Bool := x.le y && !y.le x

/-- Whether a double is at most an integer, compared exactly. -/
def leInt (x : Binary64) (n : Int) : Bool :=
  match x with
  | nan => false
  | infinite s => s
  | finite s m e => signedUnits s m e ≤ n * unit

/-- The integer that the double is, if it is one. -/
def toInt? : Binary64 → Option Int
  | finite s m e =>
      let u := units m e
      if u % unit = 0 then some (if s then -((u / unit : Nat) : Int) else (u / unit : Nat)) else none
  | _ => none

/-- The interchange format: one sign bit, eleven exponent bits, 52 fraction bits. -/
def toBits : Binary64 → Nat
  | finite s m e =>
      (if s then twoPow 63 else 0)
        + (if m < twoPow 52 then m else (e + 1) * twoPow 52 + (m - twoPow 52))
  | infinite s => (if s then twoPow 63 else 0) + 2047 * twoPow 52
  | nan => 2047 * twoPow 52 + twoPow 51

end Binary64

end SourceAtlas.Number
