/-!
# Decimal digits

Every script's decimal digits form a block of ten consecutive code points, zero first. Counts are
shown with a comma before every third digit from the right.
-/

namespace SourceAtlas.Text

/-- The code point of zero in each block. -/
def digitZeros : List Nat :=
  [48, 1632, 1776, 1984, 2406, 2534, 2662, 2790, 2918, 3046,
   3174, 3302, 3430, 3558, 3664, 3792, 3872, 4160, 4240, 6112,
   6160, 6470, 6608, 6784, 6800, 6992, 7088, 7232, 7248, 42528,
   43216, 43264, 43472, 43504, 43600, 44016, 65296, 66720, 68912, 69734,
   69872, 69942, 70096, 70384, 70736, 70864, 71248, 71360, 71472, 71904,
   72016, 72784, 73040, 73120, 92768, 92864, 93008, 120782, 120792, 120802,
   120812, 120822, 123200, 123632, 125264, 130032]

/-- The value of a decimal digit of any script. -/
def digitValue? (c : Char) : Option Nat :=
  if c.toNat < 128 then
    if c.isDigit then some (c.toNat - 48) else none
  else
    (digitZeros.find? fun low => low ≤ c.toNat && c.toNat < low + 10).map (c.toNat - ·)

def hexValue? (c : Char) : Option Nat :=
  if c.isDigit then some (c.toNat - 48)
  else if 'a' ≤ c ∧ c ≤ 'f' then some (c.toNat - 87)
  else if 'A' ≤ c ∧ c ≤ 'F' then some (c.toNat - 55)
  else none

/-- Group digits given from the least significant one. -/
def groupReversed : List Char → List Char
  | a :: b :: c :: d :: rest => a :: b :: c :: ',' :: groupReversed (d :: rest)
  | digits => digits

def groupedDigits (n : Nat) : List Char :=
  (groupReversed (Nat.toDigits 10 n).reverse).reverse

/-- A count with commas between its thousands; a minus sign stands in front. -/
def thousands (n : Int) : String :=
  String.ofList (if n < 0 then '-' :: groupedDigits n.natAbs else groupedDigits n.natAbs)

end SourceAtlas.Text
