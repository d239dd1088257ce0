import SourceAtlas.Proofs.Number.Limits
import SourceAtlas.Text.Quoted

/-!
# Numbers as digits

An integer that is written in decimal digits is read back, unless it is one that is not shown. The
four hexadecimal digits of a code are read back as well.
-/

namespace SourceAtlas

open SourceAtlas.Text

namespace Number

variable {digits text : List Char}

theorem toNat_of_isDigit {c : Char} (h : c.isDigit = true) : 48 ≤ c.toNat ∧ c.toNat ≤ 57 := by
  unfold Char.isDigit at h
  simp only [Bool.and_eq_true, decide_eq_true_eq] at h
  exact ⟨h.1, h.2⟩

theorem digitInBase?_of_isDigit {c : Char} (h : c.isDigit = true) :
    digitInBase? 10 c = some (c.toNat - 48) := by
  have hbounds := toNat_of_isDigit h
  unfold digitInBase? hexValue?
  rw [if_pos h, Option.filter_some, if_pos]
  simp only [decide_eq_true_eq]
  omega

theorem readDigits_of_isDigit (h : ∀ c ∈ digits, c.isDigit = true) (value count : Nat) :
    readDigits 10 value count digits =
      some (Nat.ofDigitChars 10 digits value, count + digits.length) := by
  induction digits generalizing value count with
  | nil => rfl
  | cons c rest ih =>
      have hc := h c List.mem_cons_self
      have hne : c ≠ '_' := by
        rintro rfl
        exact absurd hc (by decide)
      have hstep := digitInBase?_of_isDigit hc
      have hrest := ih fun d hd => h d (List.mem_cons_of_mem _ hd)
      rw [readDigits, hstep, Option.bind_eq_bind, Option.bind_some, hrest, Nat.ofDigitChars_cons,
        List.length_cons, Nat.mul_comm value 10, Nat.add_assoc, Nat.add_comm 1]
      · rfl
      · exact fun _ _ hsame => absurd hsame hne

theorem isDigit_toDigits {n : Nat} : ∀ c ∈ Nat.toDigits 10 n, c.isDigit = true := fun _ hc =>
  Nat.isDigit_of_mem_toDigits (by decide) (by decide) hc

theorem toDigits_eq_cons (n : Nat) :
    ∃ c more, Nat.toDigits 10 n = c :: more ∧ c.isDigit = true := by
  obtain ⟨c, more, hlist⟩ := List.exists_cons_of_ne_nil (Nat.toDigits_ne_nil (b := 10) (n := n))
  exact ⟨c, more, hlist, isDigit_toDigits c (hlist ▸ List.mem_cons_self)⟩

theorem readMagnitude_toDigits (n : Nat) :
    readMagnitude 10 (Nat.toDigits 10 n) = some (n, (Nat.toDigits 10 n).length) := by
  have hvalue : Nat.ofDigitChars 10 (Nat.toDigits 10 n) 0 = n := Nat.ofDigitChars_ten_toDigits
  have hdigits := isDigit_toDigits (n := n)
  cases hlist : Nat.toDigits 10 n with
  | nil => exact absurd hlist Nat.toDigits_ne_nil
  | cons c rest =>
      rw [hlist] at hvalue hdigits
      have hrest := readDigits_of_isDigit fun d hd => hdigits d (List.mem_cons_of_mem c hd)
      rw [Nat.ofDigitChars_cons, Nat.mul_zero, Nat.zero_add] at hvalue
      rw [readMagnitude, digitInBase?_of_isDigit (hdigits c List.mem_cons_self),
        Option.bind_eq_bind, Option.bind_some, hrest, List.length_cons, Nat.add_comm 1]
      exact congrArg (fun value => some (value, rest.length + 1)) hvalue

/-- A character of a written integer. -/
def IsNumeric (c : Char) : Prop := c.isDigit = true ∨ c = '-'

theorem IsNumeric.bounds {c : Char} (h : IsNumeric c) : 45 ≤ c.toNat ∧ c.toNat ≤ 57 := by
  rcases h with hdigit | rfl
  · have hbounds := toNat_of_isDigit hdigit
    omega
  · decide

theorem numeralBody_of_isNumeric (h : ∀ c ∈ text, IsNumeric c) : numeralBody text = text := by
  have hblank : ∀ c ∈ text, isAsciiBlank c = false := by
    intro c hc
    have hbounds := (h c hc).bounds
    have hspace : c ≠ ' ' := by
      rintro rfl
      exact absurd hbounds.1 (by decide)
    unfold isAsciiBlank
    simp [hspace]
    omega
  have hdrop : ∀ part : List Char, (∀ c ∈ part, c ∈ text) →
      part.dropWhile isAsciiBlank = part := by
    intro part hpart
    cases part with
    | nil => rfl
    | cons c rest =>
        have hc := hblank c (hpart c List.mem_cons_self)
        rw [List.dropWhile_cons_of_neg (by simp [hc])]
  have hascii : (text.all fun c => decide (c.toNat < 128)) = true := by
    rw [List.all_eq_true]
    intro c hc
    have hbounds := (h c hc).bounds
    exact decide_eq_true (by omega)
  unfold numeralBody
  dsimp only
  rw [if_pos hascii, hdrop text fun _ hc => hc, hdrop _ fun _ hc => List.mem_reverse.mp hc,
    List.reverse_reverse]
  refine (List.map_congr_left fun c hc => ?_).trans (List.map_id _)
  have hbounds := (h c hc).bounds
  unfold asciiDigit
  rw [if_pos (by omega)]
  rfl

theorem dropBaseMark_ten (text : List Char) : dropBaseMark 10 text = text := by
  unfold dropBaseMark
  split
  · exact if_neg nofun
  · rfl

theorem toList_toString_of_nonneg {n : Int} (h : 0 ≤ n) :
    (toString n).toList = Nat.toDigits 10 n.natAbs := by
  obtain ⟨m, rfl⟩ := Int.eq_ofNat_of_zero_le h
  change (toString m).toList = _
  rw [Nat.toString_eq_ofList_toDigits, String.toList_ofList]
  rfl

theorem toList_toString_of_neg {n : Int} (h : n < 0) :
    (toString n).toList = '-' :: Nat.toDigits 10 n.natAbs := by
  obtain ⟨m, rfl⟩ := Int.eq_negSucc_of_lt_zero h
  change ("-" ++ toString (m + 1)).toList = _
  rw [String.toList_append, Nat.toString_eq_ofList_toDigits]
  exact congrArg ('-' :: ·) String.toList_ofList

theorem isNumeric_of_mem_toString {n : Int} : ∀ c ∈ (toString n).toList, IsNumeric c := by
  have hdigits : ∀ c ∈ Nat.toDigits 10 n.natAbs, IsNumeric c := fun c hc =>
    .inl (isDigit_toDigits c hc)
  rcases Int.lt_or_le n 0 with hneg | hpos
  · rw [toList_toString_of_neg hneg]
    exact List.forall_mem_cons.mpr ⟨.inr rfl, hdigits⟩
  · rw [toList_toString_of_nonneg hpos]
    exact hdigits

theorem splitSign_toDigits (n : Nat) :
    splitSign (Nat.toDigits 10 n) = (false, Nat.toDigits 10 n) := by
  unfold splitSign
  split
  · next h => exact absurd (isDigit_toDigits '-' (h ▸ List.mem_cons_self)) (by decide)
  · next h => exact absurd (isDigit_toDigits '+' (h ▸ List.mem_cons_self)) (by decide)
  · rfl

/-- A written integer is read back unless it is too long. -/
theorem parseInteger_toString (n : Int) :
    parseInteger 10 (toString n).toList =
      if maxDecimalDigits < (Nat.toDigits 10 n.natAbs).length
      then .error (.tooLong (Nat.toDigits 10 n.natAbs).length) else .ok n := by
  have hbody := numeralBody_of_isNumeric (isNumeric_of_mem_toString (n := n))
  unfold parseInteger
  rw [hbody]
  rcases Int.lt_or_le n 0 with hneg | hpos
  · have hsplit : splitSign ('-' :: Nat.toDigits 10 n.natAbs) = (true, Nat.toDigits 10 n.natAbs) :=
      rfl
    have hvalue : -(n.natAbs : Int) = n := by omega
    rw [toList_toString_of_neg hneg, hsplit]
    dsimp only
    rw [dropBaseMark_ten, readMagnitude_toDigits]
    dsimp only
    rw [if_pos rfl, hvalue]
    simp only [true_and]
  · have hvalue : (n.natAbs : Int) = n := by omega
    rw [toList_toString_of_nonneg hpos, splitSign_toDigits]
    dsimp only
    rw [dropBaseMark_ten, readMagnitude_toDigits]
    dsimp only
    rw [hvalue]
    simp

theorem readInteger_toString_of_short {n : Int} (h : ¬ IsLong n) :
    readInteger 10 (toString n).toList = some n := by
  rw [isLong_iff] at h
  unfold readInteger
  rw [parseInteger_toString, if_neg h]
  rfl

theorem readInteger_toString_of_long {n : Int} (h : IsLong n) :
    readInteger 10 (toString n).toList = none := by
  rw [isLong_iff] at h
  unfold readInteger
  rw [parseInteger_toString, if_pos h]
  rfl

end Number

namespace Text

theorem hexValue?_digitChar : ∀ {d : Nat}, d < 16 → hexValue? (Nat.digitChar d) = some d := by
  decide

theorem hexDigits_succ {width n : Nat} (hwidth : 0 < width) :
    hexDigits (width + 1) n = hexDigits width (n / 16) ++ [Nat.digitChar (n % 16)] := by
  have hcases := Nat.toDigits_eq_if (b := 16) (n := n) (by decide)
  unfold hexDigits
  dsimp only
  rw [hcases]
  split
  · next hless =>
      have hquotient : n / 16 = 0 := by omega
      have hremainder : n % 16 = n := by omega
      have hsplit : List.replicate (width - 1) '0' ++ ['0'] = List.replicate width '0' := by
        rw [← List.replicate_succ', Nat.sub_add_cancel hwidth]
      rw [hquotient, hremainder, Nat.toDigits_zero, List.length_singleton, List.length_singleton,
        Nat.add_sub_cancel, hsplit]
  · rw [List.length_append, List.length_singleton, Nat.add_sub_add_right, List.append_assoc]

theorem hexDigits_one {n : Nat} (h : n < 16) : hexDigits 1 n = [Nat.digitChar n] := by
  unfold hexDigits
  rw [Nat.toDigits_of_lt_base h]
  rfl

/-- The four hexadecimal digits of a code. -/
theorem hexDigits_four {n : Nat} (h : n < 65536) :
    hexDigits 4 n = [Nat.digitChar (n / 16 / 16 / 16), Nat.digitChar (n / 16 / 16 % 16),
      Nat.digitChar (n / 16 % 16), Nat.digitChar (n % 16)] := by
  rw [hexDigits_succ (by decide), hexDigits_succ (by decide), hexDigits_succ (by decide),
    hexDigits_one (by omega)]
  rfl

end Text

end SourceAtlas
