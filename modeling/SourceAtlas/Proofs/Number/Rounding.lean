import SourceAtlas.Proofs.Number.Limits

/-!
# Rounding keeps the order

A larger quotient is not rounded to a smaller double, and a double is rounded to itself. So of two
products with one factor in common the one with the larger other factor is not the smaller one.
-/

namespace SourceAtlas.Number.Binary64

variable {num more den : Nat}

/-! ## The nearest double -/

/-- The magnitude that a quotient is rounded to, in smallest units. -/
def nearestUnits (num den : Nat) : Nat :=
  roundQuotient num (den * twoPow (exponentFor num den)) * twoPow (exponentFor num den)

/-- The exponent of the double that a quotient is rounded to. -/
def nearestExponent (num den : Nat) : Nat :=
  if roundQuotient num (den * twoPow (exponentFor num den)) = mantissaLimit
    then exponentFor num den + 1 else exponentFor num den

theorem le_roundQuotient (num den : Nat) : num / den ≤ roundQuotient num den := by
  rcases roundQuotient_cases num den with ⟨h, -⟩ | ⟨h, -⟩ <;> omega

theorem roundQuotient_le (num den : Nat) : roundQuotient num den ≤ num / den + 1 := by
  rcases roundQuotient_cases num den with ⟨h, -⟩ | ⟨h, -⟩ <;> omega

theorem roundQuotient_mul (n : Nat) (hden : 0 < den) : roundQuotient (n * den) den = n := by
  have hquotient : n * den / den = n := Nat.mul_div_cancel n hden
  have hremainder : n * den % den = 0 := Nat.mul_mod_left n den
  rcases roundQuotient_cases (n * den) den with ⟨h, -⟩ | ⟨-, h⟩
  · rw [h, hquotient]
  · omega

theorem quotient_at_exponent (num den : Nat) :
    num / (den * twoPow (exponentFor num den)) < mantissaLimit ∧
      (0 < exponentFor num den → twoPow 52 ≤ num / (den * twoPow (exponentFor num den))) := by
  have hpos := twoPow_pos (exponentFor num den)
  obtain ⟨hupper, hlower⟩ := exponentFor_bounds num den
  rw [← Nat.div_div_eq_div_mul]
  constructor
  · rw [Nat.div_lt_iff_lt_mul hpos]
    rwa [Nat.add_comm, twoPow_add] at hupper
  · intro hexponent
    rw [Nat.le_div_iff_mul_le hpos, ← twoPow_add, Nat.add_comm]
    exact hlower hexponent

theorem roundQuotient_le_limit (num den : Nat) :
    roundQuotient num (den * twoPow (exponentFor num den)) ≤ mantissaLimit :=
  Nat.le_trans (roundQuotient_le _ _) (quotient_at_exponent num den).1

/-- A quotient is rounded to the nearest double, unless this is beyond all doubles. -/
theorem ofUnits_cases (negative : Bool) (num den : Nat) :
    (maxExponent < nearestExponent num den ∧ ofUnits negative num den = .infinite negative) ∨
      ∃ m e, ofUnits negative num den = .finite negative m e ∧ m < mantissaLimit ∧
        e ≤ maxExponent ∧ nearestExponent num den = e ∧ units m e = nearestUnits num den := by
  have hlimit := roundQuotient_le_limit num den
  unfold ofUnits nearestExponent nearestUnits
  dsimp only
  split
  · next htop =>
    dsimp only
    split
    · next hmore => exact .inl ⟨hmore, rfl⟩
    · next hless =>
      refine .inr ⟨_, _, rfl, by rw [htop]; decide, Nat.le_of_not_lt hless, rfl, ?_⟩
      have hdouble : units (mantissaLimit / 2) (exponentFor num den + 1) =
          mantissaLimit / 2 * 2 * twoPow (exponentFor num den) := by
        rw [units, Nat.add_comm, twoPow_add, Nat.mul_assoc]
        rfl
      rw [htop, hdouble]
      rfl
  · next hbelow =>
    dsimp only
    split
    · next hmore => exact .inl ⟨hmore, rfl⟩
    · next hless =>
      exact .inr ⟨_, _, rfl, Nat.lt_of_le_of_ne hlimit hbelow, Nat.le_of_not_lt hless, rfl, rfl⟩

/-! ## Order -/

theorem roundQuotient_mono (den : Nat) (h : num ≤ more) :
    roundQuotient num den ≤ roundQuotient more den := by
  have hquotient : num / den ≤ more / den := Nat.div_le_div_right h
  rcases Nat.lt_or_eq_of_le hquotient with hless | hsame
  · exact Nat.le_trans (roundQuotient_le num den)
      (Nat.le_trans hless (le_roundQuotient more den))
  · have hnum := Nat.div_add_mod num den
    have hmore := Nat.div_add_mod more den
    rw [hsame] at hnum
    have hremainder : num % den ≤ more % den := by omega
    have hcases := roundQuotient_cases num den
    have hcases' := roundQuotient_cases more den
    rw [hsame] at hcases
    omega

theorem exponentFor_mono (den : Nat) (h : num ≤ more) :
    exponentFor num den ≤ exponentFor more den := by
  have hquotient : num / den ≤ more / den := Nat.div_le_div_right h
  have hlog : (num / den).log2 ≤ (more / den).log2 := by
    by_cases hzero : num / den = 0
    · rw [hzero, Nat.log2_zero]
      exact Nat.zero_le _
    · have hne : more / den ≠ 0 := fun hnone => hzero (Nat.le_zero.mp (hnone ▸ hquotient))
      exact (Nat.le_log2 hne).mpr (Nat.le_trans (Nat.log2_self_le hzero) hquotient)
  exact Nat.sub_le_sub_right hlog 52

/-- Both the exponent and the magnitude of the nearest double go up with the quotient. -/
theorem nearest_mono (den : Nat) (h : num ≤ more) :
    nearestExponent num den ≤ nearestExponent more den ∧
      nearestUnits num den ≤ nearestUnits more den := by
  unfold nearestExponent nearestUnits
  have hlimit := roundQuotient_le_limit num den
  have hlimit' := roundQuotient_le_limit more den
  rcases Nat.lt_or_eq_of_le (exponentFor_mono den h) with hless | hsame
  · constructor
    · split <;> split <;> omega
    · -- The smaller magnitude is at most `2 ^ 53` below the larger exponent.
      have hlower := (quotient_at_exponent more den).2 (Nat.zero_lt_of_lt hless)
      calc roundQuotient num (den * twoPow (exponentFor num den)) * twoPow (exponentFor num den)
          ≤ mantissaLimit * twoPow (exponentFor num den) := Nat.mul_le_mul_right _ hlimit
        _ = twoPow (53 + exponentFor num den) := (twoPow_add 53 _).symm
        _ ≤ twoPow (52 + exponentFor more den) := twoPow_le (by omega)
        _ = twoPow 52 * twoPow (exponentFor more den) := twoPow_add 52 _
        _ ≤ roundQuotient more (den * twoPow (exponentFor more den)) *
              twoPow (exponentFor more den) :=
            Nat.mul_le_mul_right _ (Nat.le_trans hlower (le_roundQuotient _ _))
  · rw [← hsame] at hlimit' ⊢
    have hround := roundQuotient_mono (den * twoPow (exponentFor num den)) h
    constructor
    · split <;> split <;> omega
    · exact Nat.mul_le_mul_right _ hround

/-- A number below the larger of two rounded quotients is below the smaller one. -/
theorem leInt_ofUnits_mono (h : num ≤ more) {n : Int}
    (hle : (ofUnits false more den).leInt n = true) :
    (ofUnits false num den).leInt n = true := by
  obtain ⟨hexponent, hunits⟩ := nearest_mono den h
  rcases ofUnits_cases false more den with ⟨-, hround⟩ | ⟨m, e, hround, -, he, hsame, hmore⟩
  · rw [hround] at hle
    cases hle
  rw [hround] at hle
  have hbound : (units m e : Int) ≤ n * unit := of_decide_eq_true hle
  rcases ofUnits_cases false num den with ⟨hmax, -⟩ | ⟨m', e', hround', -, -, -, hnum⟩
  · omega
  · rw [hround']
    have hbelow : (units m' e' : Int) ≤ n * unit := by omega
    exact decide_eq_true hbelow

theorem leInt_ofUnits_negative (num den n : Nat) : (ofUnits true num den).leInt n = true := by
  rcases ofUnits_cases true num den with ⟨-, hround⟩ | ⟨m, e, hround, -⟩
  · rw [hround]
    rfl
  · rw [hround]
    have hproduct : (0 : Int) ≤ n * unit := Int.mul_nonneg (Int.natCast_nonneg _) (Int.natCast_nonneg _)
    have hsign : -(units m e : Int) ≤ n * unit := by omega
    exact decide_eq_true hsign

/-! ## Doubles -/

/-- A double is rounded to itself. -/
theorem nearest_of_double {m e : Nat} (hm : m < mantissaLimit) (he : e ≤ maxExponent)
    (hden : 0 < den) :
    nearestExponent (units m e * den) den ≤ maxExponent ∧
      nearestUnits (units m e * den) den = units m e := by
  have hquotient : units m e * den / den = units m e := Nat.mul_div_cancel _ hden
  have hexponent : exponentFor (units m e * den) den ≤ e := by
    unfold exponentFor
    rw [hquotient]
    by_cases hzero : units m e = 0
    · rw [hzero, Nat.log2_zero]
      exact Nat.zero_le _
    · have hupper : units m e < twoPow (53 + e) := by
        rw [twoPow_add]
        exact Nat.mul_lt_mul_of_pos_right hm (twoPow_pos e)
      have hlog := (Nat.log2_lt hzero).mpr hupper
      omega
  obtain ⟨hlimit, -⟩ := quotient_at_exponent (units m e * den) den
  unfold nearestExponent nearestUnits
  generalize exponentFor (units m e * den) den = low at *
  have hscaled : units m e * den = m * twoPow (e - low) * (den * twoPow low) := by
    have hsplit : twoPow e = twoPow (e - low) * twoPow low := by
      rw [← twoPow_add, Nat.sub_add_cancel hexponent]
    rw [units, hsplit]
    ac_rfl
  have hpos : 0 < den * twoPow low := Nat.mul_pos hden (twoPow_pos low)
  rw [hscaled, Nat.mul_div_cancel _ hpos] at hlimit
  rw [hscaled, roundQuotient_mul _ hpos, if_neg (Nat.ne_of_lt hlimit)]
  refine ⟨Nat.le_trans hexponent he, ?_⟩
  rw [Nat.mul_assoc, ← twoPow_add, Nat.sub_add_cancel hexponent]
  rfl

theorem leInt_ofUnits_double {m e : Nat} (hm : m < mantissaLimit) (he : e ≤ maxExponent)
    (hden : 0 < den) (n : Int) :
    (ofUnits false (units m e * den) den).leInt n = true ↔ (units m e : Int) ≤ n * unit := by
  obtain ⟨hexponent, hunits⟩ := nearest_of_double hm he hden
  rcases ofUnits_cases false (units m e * den) den with ⟨hmax, -⟩ | ⟨m', e', hround, -, -, -, hsame⟩
  · omega
  · rw [hround, ← hunits, ← hsame]
    exact decide_eq_true_iff

theorem unit_pos : 0 < unit := twoPow_pos 1074

theorem leInt_ofUnits_zero (n : Nat) : (ofUnits false 0 unit).leInt n = true := by
  have hzero := (leInt_ofUnits_double (m := 0) (e := 0) (by decide) (Nat.zero_le _) unit_pos
    (n : Int)).mpr
  have hunits : units 0 0 = 0 := rfl
  rw [hunits, Nat.zero_mul] at hzero
  exact hzero (Int.mul_nonneg (Int.natCast_nonneg n) (Int.natCast_nonneg unit))

/-! ## Products -/

theorem signedUnits_false (m e : Nat) : signedUnits false m e = (units m e : Int) := rfl

theorem signedUnits_true (m e : Nat) : signedUnits true m e = -(units m e : Int) := rfl

theorem mul_finite (s t : Bool) (m e k f : Nat) :
    (finite s m e).mul (finite t k f) = ofUnits (s != t) (units m e * units k f) unit := rfl

/-- The double is above zero. -/
def IsPositive (x : Binary64) : Prop :=
  x = .infinite false ∨ ∃ m e, x = .finite false m e ∧ 0 < m

theorem isPositive_ofNat {n : Nat} (hn : 0 < n) : IsPositive (ofNat n) := by
  unfold ofNat ofRatio
  rcases ofUnits_cases false (n * unit) 1 with ⟨-, hround⟩ | ⟨m, e, hround, -, -, -, hunits⟩
  · exact .inl hround
  · refine .inr ⟨m, e, hround, Nat.pos_of_ne_zero fun hzero => ?_⟩
    -- One smallest unit is a double, and the number is not rounded below it.
    obtain ⟨-, hone⟩ := nearest_of_double (m := 1) (e := 0) (by decide) (Nat.zero_le _) Nat.one_pos
    have hleast : units 1 0 * 1 ≤ n * unit := Nat.mul_pos hn unit_pos
    have hmono := (nearest_mono 1 hleast).2
    rw [hone, ← hunits, hzero, units, units, Nat.zero_mul] at hmono
    exact absurd hmono (by decide)

theorem isZero_of_pos {negative : Bool} {m e : Nat} (hm : 0 < m) :
    (finite negative m e).isZero = false := beq_eq_false_iff_ne.mpr (Nat.ne_of_gt hm)

theorem mul_infinite {x : Binary64} (hx : IsPositive x) (negative : Bool) :
    x.mul (.infinite negative) = .infinite negative := by
  rcases hx with rfl | ⟨m, e, rfl, hm⟩
  · cases negative <;> rfl
  · unfold mul
    dsimp only
    rw [isZero_of_pos hm]
    cases negative <;> rfl

theorem infinite_mul {negative : Bool} {m e : Nat} (hm : 0 < m) :
    (infinite false).mul (.finite negative m e) = .infinite negative := by
  unfold mul
  dsimp only
  rw [isZero_of_pos hm]
  cases negative <;> rfl

theorem le_infinite_negative {x : Binary64} (h : x.le (.infinite true) = true) :
    x = .infinite true := by
  cases x with
  | nan => cases h
  | infinite s =>
      cases s with
      | true => rfl
      | false => cases h
  | finite => cases h

theorem leInt_mul_mono_finite {x : Binary64} (hx : IsPositive x) {s t : Bool} {m e k f n : Nat}
    (h : signedUnits s m e ≤ signedUnits t k f) (hle : (x.mul (.finite t k f)).leInt n = true) :
    (x.mul (.finite s m e)).leInt n = true := by
  rcases hx with rfl | ⟨r, g, rfl, -⟩
  · -- The bound holds of an infinite product only if it is below zero.
    rcases Nat.eq_zero_or_pos k with rfl | hk
    · cases hle
    rw [infinite_mul hk] at hle
    obtain rfl : t = true := hle
    have hpos : 0 < units k f := Nat.mul_pos hk (twoPow_pos f)
    rw [signedUnits_true] at h
    cases s with
    | false =>
        rw [signedUnits_false] at h
        omega
    | true =>
        rw [signedUnits_true] at h
        have hmore : 0 < units m e := by omega
        rw [infinite_mul (Nat.pos_of_mul_pos_right hmore)]
        rfl
  · rw [mul_finite] at hle ⊢
    cases s with
    | true => exact leInt_ofUnits_negative _ _ n
    | false =>
        rw [signedUnits_false] at h
        cases t with
        | false =>
            rw [signedUnits_false, Int.ofNat_le] at h
            exact leInt_ofUnits_mono (Nat.mul_le_mul_left _ h) hle
        | true =>
            rw [signedUnits_true] at h
            have hzero : units m e = 0 := by omega
            rw [hzero, Nat.mul_zero]
            exact leInt_ofUnits_zero n

/-- Of two products with a positive factor in common, the one with the smaller other factor stays
below every bound of the other one. -/
theorem leInt_mul_mono {x smaller larger : Binary64} (hx : IsPositive x)
    (h : smaller.le larger = true) {n : Nat} (hle : (x.mul larger).leInt n = true) :
    (x.mul smaller).leInt n = true := by
  cases larger with
  | nan => cases x <;> cases hle
  | infinite t =>
      cases t with
      | true => rwa [le_infinite_negative h]
      | false =>
          rw [mul_infinite hx] at hle
          cases hle
  | finite t k f =>
      cases smaller with
      | nan => cases h
      | infinite s =>
          obtain rfl : s = true := h
          rw [mul_infinite hx]
          rfl
      | finite s m e => exact leInt_mul_mono_finite hx (of_decide_eq_true h) hle

/-! ## Whole numbers -/

/-- The natural numbers below `2 ^ 53` are doubles. -/
theorem leInt_ofNat {n : Nat} (hn : n < mantissaLimit) : (ofNat n).leInt n = true := by
  have hunits : units n 1074 = n * unit := by
    unfold units unit
    rfl
  have hdouble := leInt_ofUnits_double (e := 1074) hn (by decide) Nat.one_pos (n : Int)
  rw [Nat.mul_one, hunits] at hdouble
  unfold ofNat ofRatio
  exact hdouble.mpr (Int.le_of_eq (Int.natCast_mul n unit))

/-- A share of a number does not exceed it, unless the nearest double does. -/
theorem leInt_mul_share {n m e : Nat} (hn : (ofNat n).leInt n = true) (hshare : units m e ≤ unit) :
    ((ofNat n).mul (.finite false m e)).leInt n = true := by
  unfold ofNat ofRatio at hn ⊢
  rcases ofUnits_cases false (n * unit) 1 with ⟨-, hround⟩ | ⟨k, f, hround, hk, hf, -, -⟩
  · rw [hround] at hn
    cases hn
  · rw [hround] at hn ⊢
    have hbound : (units k f : Int) ≤ n * unit := of_decide_eq_true hn
    rw [mul_finite, bne_self_eq_false]
    exact leInt_ofUnits_mono (Nat.mul_le_mul_left _ hshare)
      ((leInt_ofUnits_double hk hf unit_pos n).mpr hbound)

end SourceAtlas.Number.Binary64
