import Mathlib.Algebra.Group.Nat.Defs
import SourceAtlas.Number.Binary64
import SourceAtlas.Number.Numeral

/-!
# Numbers beyond the limits

An integer has a nearest double unless it is so large that it would be rounded to `2 ^ 1024`, and it
is shown unless it has too many decimal digits.
-/

namespace SourceAtlas.Number

/-- An integer with more decimal digits than are shown. -/
def IsLong (n : Int) : Prop := 10 ^ maxDecimalDigits ≤ n.natAbs

/-- An integer that is rounded beyond the largest double. -/
def IsHuge (n : Int) : Prop := 2 ^ 1024 - 2 ^ 970 ≤ n.natAbs

theorem isLong_iff (n : Int) : IsLong n ↔ maxDecimalDigits < (Nat.toDigits 10 n.natAbs).length := by
  have hlength := Nat.length_toDigits_le_iff (b := 10) (n := n.natAbs) (k := maxDecimalDigits)
    (by decide) (by decide)
  unfold IsLong
  rw [← Nat.not_lt, ← hlength, Nat.not_le]

theorem showInteger?_eq_none_iff (n : Int) : showInteger? n = none ↔ IsLong n := by
  unfold showInteger?
  rw [isLong_iff]
  dsimp only
  split
  · next hmore => exact iff_of_true rfl hmore
  · next hfew => exact iff_of_false nofun hfew

namespace Binary64

theorem twoPow_pos (exponent : Nat) : 0 < twoPow exponent := Nat.pow_pos (by decide)

theorem twoPow_add (a b : Nat) : twoPow (a + b) = twoPow a * twoPow b := Nat.pow_add 2 a b

theorem twoPow_le {a b : Nat} (h : a ≤ b) : twoPow a ≤ twoPow b :=
  Nat.pow_le_pow_right (by decide) h

/-- A quotient is rounded to one of its neighbours. -/
theorem roundQuotient_cases (num den : Nat) :
    (roundQuotient num den = num / den ∧ (2 * (num % den) < den ∨
      (2 * (num % den) = den ∧ num / den % 2 = 0))) ∨
    (roundQuotient num den = num / den + 1 ∧ (den < 2 * (num % den) ∨
      (2 * (num % den) = den ∧ num / den % 2 = 1))) := by
  unfold roundQuotient
  dsimp only
  split
  · next hless => exact .inl ⟨rfl, .inl hless⟩
  · split
    · next hmore => exact .inr ⟨rfl, .inl hmore⟩
    · have htie : 2 * (num % den) = den := by omega
      split
      · next heven => exact .inl ⟨rfl, .inr ⟨htie, heven⟩⟩
      · exact .inr ⟨rfl, .inr ⟨htie, by omega⟩⟩

/-- The exponent under which a quotient is rounded puts its mantissa between `2 ^ 52` and
`2 ^ 53`. -/
theorem exponentFor_bounds (num den : Nat) :
    num / den < twoPow (exponentFor num den + 53) ∧
      (0 < exponentFor num den → twoPow (exponentFor num den + 52) ≤ num / den) := by
  unfold exponentFor
  constructor
  · have hlog : num / den < twoPow ((num / den).log2 + 1) := Nat.lt_log2_self
    exact Nat.lt_of_lt_of_le hlog (twoPow_le (by omega))
  · intro hpos
    have hsame : (num / den).log2 - 52 + 52 = (num / den).log2 := by omega
    rw [hsame]
    refine Nat.log2_self_le fun hzero => ?_
    rw [hzero, Nat.log2_zero] at hpos
    exact absurd hpos (by decide)

theorem ofUnits_eq_infinite_iff (negative : Bool) (num : Nat) :
    (∃ sign, ofUnits negative num 1 = .infinite sign) ↔
      maxExponent < if roundQuotient num (twoPow (exponentFor num 1)) = mantissaLimit
        then exponentFor num 1 + 1 else exponentFor num 1 := by
  unfold ofUnits
  dsimp only
  rw [Nat.one_mul]
  split
  · dsimp only
    split
    · next hmore => exact iff_of_true ⟨_, rfl⟩ hmore
    · next hless => exact iff_of_false (fun ⟨_, h⟩ => nomatch h) hless
  · dsimp only
    split
    · next hmore => exact iff_of_true ⟨_, rfl⟩ hmore
    · next hless => exact iff_of_false (fun ⟨_, h⟩ => nomatch h) hless

/-- The quotient and the remainder of the numbers that are rounded up to a power of two. -/
theorem roundQuotient_eq_limit_iff {num half : Nat} (hhalf : 0 < half)
    (hnum : num < 2 * half * 2 ^ 53) :
    roundQuotient num (2 * half) = 2 ^ 53 ↔ (2 ^ 54 - 1) * half ≤ num := by
  have hcases := roundQuotient_cases num (2 * half)
  have hdivision := Nat.div_add_mod num (2 * half)
  have hremainder := Nat.mod_lt num (show 0 < 2 * half by omega)
  have hquotient : num / (2 * half) < 2 ^ 53 := Nat.div_lt_of_lt_mul hnum
  generalize roundQuotient num (2 * half) = rounded at *
  generalize num % (2 * half) = remainder at *
  by_cases htop : num / (2 * half) = 2 ^ 53 - 1
  · rw [htop] at hcases hdivision
    omega
  · -- One unit of the quotient less leaves the number below the largest double.
    have hless : 2 * half * (num / (2 * half)) ≤ 2 * half * (2 ^ 53 - 2) :=
      Nat.mul_le_mul_left _ (by omega)
    generalize num / (2 * half) = quotient at *
    generalize 2 * half * quotient = multiple at *
    omega

/-- Rounding leaves the range of doubles halfway between the largest one and `2 ^ 1024`. -/
theorem ofUnits_infinite_iff (negative : Bool) (num : Nat) :
    (∃ sign, ofUnits negative num 1 = .infinite sign) ↔ (2 ^ 54 - 1) * twoPow 2044 ≤ num := by
  rw [ofUnits_eq_infinite_iff]
  have hmax : maxExponent = 2044 + 1 := rfl
  have hlimit : mantissaLimit = 2 ^ 53 := rfl
  rw [hmax, hlimit]
  -- The powers of two are too large to be computed.
  generalize 2044 = k
  have hpos : 0 < twoPow k := twoPow_pos _
  have h53 : twoPow 53 = 2 ^ 53 := rfl
  have h54 : twoPow 54 = 2 ^ 54 := rfl
  obtain ⟨hupper, hlower⟩ := exponentFor_bounds num 1
  rw [Nat.div_one] at hupper hlower
  generalize exponentFor num 1 = e at *
  rcases Nat.lt_trichotomy e (k + 1) with hless | rfl | hmore
  · have hsmall : twoPow (e + 53) ≤ twoPow (k + 53) := twoPow_le (by omega)
    rw [twoPow_add k 53, h53] at hsmall
    refine iff_of_false ?_ (by omega)
    split <;> omega
  · have hdouble : twoPow (k + 1) = 2 * twoPow k := by
      rw [twoPow_add, Nat.mul_comm]
      rfl
    rw [twoPow_add, h53, hdouble] at hupper
    rw [hdouble, ← roundQuotient_eq_limit_iff hpos hupper]
    split
    · next hround => exact iff_of_true (by omega) hround
    · next hround => exact iff_of_false (by omega) hround
  · have hlarge : twoPow (k + 54) ≤ twoPow (e + 52) := twoPow_le (by omega)
    rw [twoPow_add k 54, h54] at hlarge
    have hnumber := hlower (by omega)
    refine iff_of_true ?_ (by omega)
    split <;> omega

theorem mul_twoPow_le_iff (a b c num : Nat) :
    (2 ^ a - 1) * twoPow (b + c) ≤ num * twoPow c ↔ 2 ^ (a + b) - 2 ^ b ≤ num := by
  have hscaled : (2 ^ a - 1) * twoPow (b + c) = (2 ^ (a + b) - 2 ^ b) * twoPow c := by
    rw [twoPow_add, ← Nat.mul_assoc, Nat.sub_mul, Nat.one_mul, Nat.pow_add]
    rfl
  rw [hscaled]
  exact Nat.mul_le_mul_right_iff (twoPow_pos c)

theorem ofInt_infinite_iff (n : Int) : (∃ sign, ofInt n = .infinite sign) ↔ IsHuge n := by
  have hscaled := mul_twoPow_le_iff 54 970 1074 n.natAbs
  have htop : 54 + 970 = 1024 := rfl
  have hsum : 970 + 1074 = 2044 := rfl
  rw [htop, hsum] at hscaled
  unfold ofInt ofRatio unit IsHuge
  rw [ofUnits_infinite_iff, hscaled]

end Binary64

end SourceAtlas.Number
