import Mathlib.Tactic.SplitIfs
import SourceAtlas.Json.Reader
import SourceAtlas.Json.Writer
import SourceAtlas.Proofs.Number.Digits

/-!
# Written strings are read back

A string is written in UTF-16 units, of which some stand escaped. The reader collects the same units
and joins the pairs among them, so it ends with the characters that were written.
-/

namespace SourceAtlas.Json

open Text

/-- The UTF-16 units of a character. -/
def units (c : Char) : List Nat :=
  if c.toNat < 0x10000 then [c.toNat]
  else [0xD800 + (c.toNat - 0x10000) / 1024, 0xDC00 + (c.toNat - 0x10000) % 1024]

/-- Put codes in front of what is read. -/
def prepend (codes : List Nat) (found : List Nat × List Char) : List Nat × List Char :=
  (codes ++ found.1, found.2)

theorem codeEscape?_hexDigits {code : Nat} (h : code < 65536) (c : Char) (rest : List Char) :
    codeEscape? (hexDigits 4 code ++ c :: rest) = some (code, c :: rest) := by
  rw [hexDigits_four h]
  simp only [List.cons_append, List.nil_append, codeEscape?]
  rw [hexValue?_digitChar (by omega), hexValue?_digitChar (by omega),
    hexValue?_digitChar (by omega), hexValue?_digitChar (by omega)]
  have hvalue : ((code / 16 / 16 / 16 * 16 + code / 16 / 16 % 16) * 16 + code / 16 % 16) * 16 +
      code % 16 = code := by omega
  simp only [Option.bind_eq_bind, Option.bind_some, hvalue]

theorem readCodesFuel_unitEscape {code : Nat} (h : code < 65536) (start fuel : Nat) (c : Char)
    (rest : List Char) :
    readCodesFuel start (fuel + 1) (unitEscape code ++ c :: rest) =
      (readCodesFuel start fuel (c :: rest)).map (prepend [code]) := by
  unfold unitEscape
  rw [List.cons_append, List.cons_append, readCodesFuel, if_neg (by decide), if_pos rfl]
  dsimp only
  rw [codeEscape?_hexDigits h]
  dsimp only
  cases readCodesFuel start fuel (c :: rest) <;> rfl

theorem readCodesFuel_escape {letter code : Char} (hletter : letter ≠ 'u')
    (hcode : simpleEscape? letter = some code) (start fuel : Nat) (rest : List Char) :
    readCodesFuel start (fuel + 1) ('\\' :: letter :: rest) =
      (readCodesFuel start fuel rest).map (prepend [code.toNat]) := by
  rw [readCodesFuel.eq_def]
  simp only [if_false, if_true, hcode, Char.reduceEq]
  cases readCodesFuel start fuel rest <;> rfl

theorem readCodesFuel_plain {c : Char} (hquote : c ≠ '\x22') (hbackslash : c ≠ '\\')
    (hcontrol : 32 ≤ c.toNat) (start fuel : Nat) (rest : List Char) :
    readCodesFuel start (fuel + 1) (c :: rest) =
      (readCodesFuel start fuel rest).map (prepend [c.toNat]) := by
  rw [readCodesFuel.eq_def]
  dsimp only
  rw [if_neg hquote, if_neg hbackslash, if_neg (by omega)]
  cases readCodesFuel start fuel rest <;> rfl

/-- No character is a surrogate. -/
theorem toNat_range (c : Char) : c.toNat < 0xD800 ∨ (0xDFFF < c.toNat ∧ c.toNat < 0x110000) := by
  have hvalid := c.valid
  simp only [UInt32.isValidChar, Nat.isValidChar] at hvalid
  exact hvalid

theorem units_of_lt {c : Char} (h : c.toNat < 0x10000) : units c = [c.toNat] := if_pos h

theorem units_of_le {c : Char} (h : 0x10000 ≤ c.toNat) :
    units c = [0xD800 + (c.toNat - 0x10000) / 1024, 0xDC00 + (c.toNat - 0x10000) % 1024] :=
  if_neg (Nat.not_lt.mpr h)

/-- One written character is read as its units. -/
theorem readCodesFuel_writeChar (c : Char) (start fuel : Nat) (d : Char) (rest : List Char) :
    readCodesFuel start (fuel + (units c).length) (writeChar c ++ d :: rest) =
      (readCodesFuel start fuel (d :: rest)).map (prepend (units c)) := by
  unfold writeChar
  split
  · next hescaped =>
      rcases hescaped with rfl | rfl
      · exact readCodesFuel_escape (by decide) rfl start fuel _
      · exact readCodesFuel_escape (by decide) rfl start fuel _
  · next hplain =>
      obtain ⟨hquote, hbackslash⟩ := not_or.mp hplain
      split
      · next hbreak =>
          rw [hbreak]
          exact readCodesFuel_escape (by decide) rfl start fuel _
      · split
        · next hprintable =>
            rw [units_of_lt (by omega)]
            exact readCodesFuel_plain hquote hbackslash hprintable.1 start fuel _
        · split
          · next hsmall =>
              rw [units_of_lt hsmall]
              exact readCodesFuel_unitEscape hsmall start fuel d rest
          · next hlarge =>
              have hrange := toNat_range c
              rw [units_of_le (by omega), List.append_assoc]
              -- The second escape is what follows the first one.
              have hsecond := readCodesFuel_unitEscape
                (show 0xDC00 + (c.toNat - 0x10000) % 1024 < 65536 by omega) start fuel d rest
              have hfirst := readCodesFuel_unitEscape
                (show 0xD800 + (c.toNat - 0x10000) / 1024 < 65536 by omega) start (fuel + 1) '\\'
                ('u' :: hexDigits 4 (0xDC00 + (c.toNat - 0x10000) % 1024) ++ d :: rest)
              refine hfirst.trans ((congrArg _ hsecond).trans ?_)
              cases readCodesFuel start fuel (d :: rest) <;> rfl

theorem writeChar_of_le {c : Char} (h : 0x10000 ≤ c.toNat) :
    writeChar c = unitEscape (0xD800 + (c.toNat - 0x10000) / 1024) ++
      unitEscape (0xDC00 + (c.toNat - 0x10000) % 1024) := by
  have hne : ∀ d : Char, d.toNat < 128 → c ≠ d := by
    rintro d hd rfl
    omega
  unfold writeChar
  rw [if_neg (not_or.mpr ⟨hne _ (by decide), hne _ (by decide)⟩), if_neg (hne _ (by decide)),
    if_neg (by omega), if_neg (by omega)]

theorem length_units_le (c : Char) : (units c).length ≤ (writeChar c).length := by
  rcases Nat.lt_or_ge c.toNat 0x10000 with hsmall | hlarge
  · rw [units_of_lt hsmall, List.length_singleton]
    refine List.length_pos_iff.mpr ?_
    unfold writeChar unitEscape
    split_ifs <;> exact List.cons_ne_nil _ _
  · have hescape : ∀ first second : Nat, 2 ≤ (unitEscape first ++ unitEscape second).length := by
      intro first second
      unfold unitEscape
      simp only [List.length_append, List.length_cons]
      omega
    rw [units_of_le hlarge, writeChar_of_le hlarge]
    exact hescape _ _

theorem length_flatMap_units_le (text : List Char) :
    (text.flatMap units).length ≤ (text.flatMap writeChar).length := by
  induction text with
  | nil => exact Nat.le_refl _
  | cons c text ih =>
      rw [List.flatMap_cons, List.flatMap_cons, List.length_append, List.length_append]
      exact Nat.add_le_add (length_units_le c) ih

/-- What is written of a string is read as its units, up to the closing quote. -/
theorem readCodesFuel_flatMap (text : List Char) (start fuel : Nat) (rest : List Char)
    (h : (text.flatMap units).length < fuel) :
    readCodesFuel start fuel (text.flatMap writeChar ++ '\x22' :: rest) =
      .ok (text.flatMap units, rest) := by
  induction text generalizing fuel with
  | nil =>
      obtain ⟨fuel, rfl⟩ := Nat.exists_eq_add_of_lt h
      rfl
  | cons c text ih =>
      rw [List.flatMap_cons, List.length_append] at h
      obtain ⟨fuel, rfl⟩ : ∃ less, fuel = less + (units c).length :=
        ⟨fuel - (units c).length, by omega⟩
      have hrest := ih fuel (by omega)
      rw [List.flatMap_cons, List.flatMap_cons, List.append_assoc]
      obtain ⟨d, more, hnext⟩ : ∃ d more, text.flatMap writeChar ++ '\x22' :: rest = d :: more :=
        List.exists_cons_of_ne_nil (by simp)
      rw [hnext] at hrest ⊢
      rw [readCodesFuel_writeChar, hrest]
      rfl

theorem readCodes_flatMap (text : List Char) (rest : List Char) :
    readCodes (text.flatMap writeChar ++ '\x22' :: rest) = .ok (text.flatMap units, rest) := by
  have hlength := length_flatMap_units_le text
  unfold readCodes
  refine readCodesFuel_flatMap text _ _ rest ?_
  rw [List.length_append]
  omega

/-! ## Surrogates are joined -/

theorem joinSurrogates_cons {code : Nat} (h : isHighSurrogate code = false) (codes : List Nat) :
    joinSurrogates (code :: codes) = code :: joinSurrogates codes := by
  cases codes with
  | nil => rfl
  | cons next rest => rw [joinSurrogates, h, Bool.false_and, if_neg Bool.false_ne_true]

theorem isHighSurrogate_toNat (c : Char) : isHighSurrogate c.toNat = false := by
  have hrange := toNat_range c
  unfold isHighSurrogate
  simp
  omega

theorem isLowSurrogate_toNat (c : Char) : isLowSurrogate c.toNat = false := by
  have hrange := toNat_range c
  unfold isLowSurrogate
  simp
  omega

theorem joinSurrogates_units (c : Char) (codes : List Nat) :
    joinSurrogates (units c ++ codes) = c.toNat :: joinSurrogates codes := by
  rcases Nat.lt_or_ge c.toNat 0x10000 with hsmall | hlarge
  · rw [units_of_lt hsmall]
    exact joinSurrogates_cons (isHighSurrogate_toNat c) codes
  · have hrange := toNat_range c
    have hhigh : isHighSurrogate (0xD800 + (c.toNat - 0x10000) / 1024) = true := by
      unfold isHighSurrogate
      simp
      omega
    have hlow : isLowSurrogate (0xDC00 + (c.toNat - 0x10000) % 1024) = true := by
      unfold isLowSurrogate
      simp
      omega
    have hvalue : 0x10000 + (0xD800 + (c.toNat - 0x10000) / 1024 - 0xD800) * 1024 +
        (0xDC00 + (c.toNat - 0x10000) % 1024 - 0xDC00) = c.toNat := by omega
    rw [units_of_le hlarge, List.cons_append, List.cons_append, List.nil_append, joinSurrogates,
      hhigh, hlow, Bool.true_and, if_pos rfl, hvalue]

theorem joinSurrogates_flatMap (text : List Char) :
    joinSurrogates (text.flatMap units) = text.map Char.toNat := by
  induction text with
  | nil => rfl
  | cons c text ih => rw [List.flatMap_cons, joinSurrogates_units, ih, List.map_cons]

theorem textOfCodes_map (text : List Char) : textOfCodes (text.map Char.toNat) = .ofList text := by
  unfold textOfCodes
  rw [List.map_map]
  congr 1
  refine (List.map_congr_left fun c _ => ?_).trans (List.map_id _)
  simp only [Function.comp_apply, isHighSurrogate_toNat, isLowSurrogate_toNat, Bool.or_self]
  exact Char.ofNat_toNat c

@[simp] theorem ofDraft_ofList (text : List Char) :
    ofDraft (.ofList text) = .string (.ofList text) := by
  have hmarks : (text.map Mark.char).mapM Mark.char? = some text := by
    induction text with
    | nil => rfl
    | cons c text ih => simp [ih, Mark.char?]
  unfold ofDraft Draft.toString? Draft.ofList
  rw [hmarks]
  rfl

@[simp] theorem ofDraft_ofString (text : String) : ofDraft (.ofString text) = .string text := by
  unfold Draft.ofString
  rw [ofDraft_ofList, String.ofList_toList]

theorem stringOfCodes_flatMap (text : List Char) :
    stringOfCodes (text.flatMap units) = .string (.ofList text) := by
  unfold stringOfCodes
  rw [joinSurrogates_flatMap, List.map_map, ← ofDraft_ofList]
  congr 2
  refine List.map_congr_left fun c _ => ?_
  simp only [Function.comp_apply, markOfCode, isHighSurrogate_toNat, isLowSurrogate_toNat,
    Bool.or_self]
  exact congrArg Mark.char (Char.ofNat_toNat c)

end SourceAtlas.Json
