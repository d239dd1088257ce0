import SourceAtlas.Proofs.Json.Strings

/-!
# Written values are read back

The text of a value is read as the same value, whatever follows it inside an array or an object. This
holds for values without fractions whose integers are shown, unless they nest too deep. An integer that
is too long makes the reader stop, and the stop is passed on by every object around it.
-/

namespace SourceAtlas.Json

open Text

variable {depth fuel : Nat} {value : Json} {item : Reader Json} {text rest : List Char}

/-- What follows a value: the end, or what an array or an object goes on with. -/
def IsTail (rest : List Char) : Prop := ∀ c ∈ rest.head?, c = ',' ∨ c = ']' ∨ c = '\x7d'

/-- How the text of a value starts. -/
def IsFront (text : List Char) : Prop :=
  ∃ c more, text = c :: more ∧ c.toNat < 128 ∧ isSpace c = false ∧ c ≠ ']' ∧ c ≠ '\x7d'

theorem isTail_nil : IsTail [] := nofun

theorem isTail_cons {c : Char} (h : c = ',' ∨ c = ']' ∨ c = '\x7d') (rest : List Char) :
    IsTail (c :: rest) := by
  intro d hd
  cases hd
  exact h

theorem isTail_writeItems (items : List Json) (rest : List Char) :
    IsTail (writeItems items ++ ']' :: rest) := by
  cases items with
  | nil => exact isTail_cons (by simp) rest
  | cons item items => exact isTail_cons (.inl rfl) _

theorem isTail_writeFields (fields : List (String × Json)) (rest : List Char) :
    IsTail (writeFields fields ++ '\x7d' :: rest) := by
  cases fields with
  | nil => exact isTail_cons (by simp) rest
  | cons field fields => exact isTail_cons (.inl rfl) _

theorem IsFront.skipSpace (h : IsFront text) (rest : List Char) :
    skipSpace (text ++ rest) = text ++ rest := by
  obtain ⟨c, more, rfl, -, hspace, -, -⟩ := h
  exact List.dropWhile_cons_of_neg (by simp [hspace])

/-- The value is read from its text. -/
structure Reads (depth : Nat) (value : Json) : Prop where
  front : IsFront (write value)
  read : ∀ rest, IsTail rest → readValue depth (write value ++ rest) = .ok (value, rest)

/-- The reader stops inside the text of the value. -/
structure Refuses (depth : Nat) (value : Json) (fault : Fault) : Prop where
  front : IsFront (write value)
  stop : ∀ rest, IsTail rest →
    ∃ remaining, readValue depth (write value ++ rest) = .error ⟨fault, remaining⟩

/-! ## Words and strings -/

theorem reads_null (depth : Nat) : Reads depth .null := by
  refine ⟨⟨'n', "ull".toList, rfl, by decide, rfl, by decide, by decide⟩, fun rest _ => ?_⟩
  cases depth <;> rfl

theorem reads_bool (depth : Nat) (b : Bool) : Reads depth (.bool b) := by
  cases b with
  | false =>
      refine ⟨⟨'f', "alse".toList, rfl, by decide, rfl, by decide, by decide⟩, fun rest _ => ?_⟩
      cases depth <;> rfl
  | true =>
      refine ⟨⟨'t', "rue".toList, rfl, by decide, rfl, by decide, by decide⟩, fun rest _ => ?_⟩
      cases depth <;> rfl

theorem writeString_append (text : String) (rest : List Char) :
    writeString text ++ rest = '\x22' :: (text.toList.flatMap writeChar ++ '\x22' :: rest) := by
  unfold writeString
  rw [List.cons_append, List.cons_append, List.append_assoc, List.singleton_append]

theorem reads_string (depth : Nat) (text : String) : Reads depth (.string text) := by
  refine ⟨⟨'\x22', text.toList.flatMap writeChar ++ ['\x22'], rfl, by decide, rfl, by decide,
    by decide⟩, fun rest _ => ?_⟩
  have hcodes := readCodes_flatMap text.toList rest
  rw [write, writeString_append, readValue, hcodes]
  change Except.ok (stringOfCodes (text.toList.flatMap units), rest) = _
  rw [stringOfCodes_flatMap, String.ofList_toList]

/-! ## Numbers -/

theorem head?_toDigits {n : Nat} (h : 0 < n) : (Nat.toDigits 10 n).head? ≠ some '0' := by
  induction n using Nat.strongRecOn with
  | ind n ih =>
      rw [Nat.toDigits_eq_if (by decide)]
      split
      · next hless =>
          intro hzero
          have hdigit := Nat.digitChar_eq_zero.mp (Option.some.inj hzero)
          omega
      · next hmore =>
          obtain ⟨c, more, hlist, -⟩ := Number.toDigits_eq_cons (n / 10)
          have hless := ih (n / 10) (by omega) (by omega)
          rw [hlist] at hless ⊢
          exact hless

theorem IsTail.not_digit (h : IsTail rest) : ∀ c ∈ rest.head?, c.isDigit = false := by
  intro c hc
  rcases h c hc with rfl | rfl | rfl <;> rfl

/-- The digits in front of a tail are split off as a whole. -/
theorem splitWhole_toDigits (n : Nat) (h : IsTail rest) :
    splitWhole (Nat.toDigits 10 n ++ rest) = (Nat.toDigits 10 n, rest) := by
  have hdigits := Number.isDigit_toDigits (n := n)
  have htail : rest.takeWhile Char.isDigit = [] ∧ rest.dropWhile Char.isDigit = rest := by
    cases rest with
    | nil => exact ⟨rfl, rfl⟩
    | cons c rest =>
        have hc := h.not_digit c rfl
        exact ⟨List.takeWhile_cons_of_neg (by simp [hc]), List.dropWhile_cons_of_neg (by simp [hc])⟩
  rcases Nat.eq_zero_or_pos n with rfl | hpos
  · rfl
  · unfold splitWhole
    split
    · next more hzero =>
        obtain ⟨c, digits, hlist, -⟩ := Number.toDigits_eq_cons n
        have hhead := head?_toDigits hpos
        rw [hlist] at hzero hhead
        cases hzero
        exact absurd rfl hhead
    · rw [List.takeWhile_append_of_pos hdigits, List.dropWhile_append_of_pos hdigits, htail.1,
        htail.2, List.append_nil]

theorem splitFraction_tail (h : IsTail rest) : splitFraction rest = ([], rest) := by
  unfold splitFraction
  split
  · next c more => rcases h '.' rfl with hwrong | hwrong | hwrong <;> cases hwrong
  · rfl

theorem splitExponent_tail (h : IsTail rest) : splitExponent rest = ([], rest) := by
  cases rest with
  | nil => rfl
  | cons c rest =>
      have hc : ¬ (c = 'e' ∨ c = 'E') := by
        rcases h c rfl with rfl | rfl | rfl <;> decide
      exact if_neg hc

theorem readNumber_toString (n : Int) (h : IsTail rest) :
    readNumber ((toString n).toList ++ rest) =
      match Number.readInteger 10 (toString n).toList with
      | some n => .ok (.int n, rest)
      | none => stopAt .hugeInteger ((toString n).toList ++ rest) := by
  have hwhole := splitWhole_toDigits n.natAbs h
  obtain ⟨c, more, hlist, hdigit⟩ := Number.toDigits_eq_cons n.natAbs
  rw [hlist, List.cons_append] at hwhole
  rcases Int.lt_or_le n 0 with hneg | hpos
  · rw [Number.toList_toString_of_neg hneg, hlist, List.cons_append, List.cons_append]
    cases hread : Number.readInteger 10 ('-' :: c :: more) <;>
      simp [readNumber, hwhole, splitFraction_tail h, splitExponent_tail h, hread]
  · have hsign : c ≠ '-' := by
      rintro rfl
      exact absurd hdigit (by decide)
    rw [Number.toList_toString_of_nonneg hpos, hlist, List.cons_append]
    unfold readNumber
    split
    next sign unsigned hsplit =>
    split at hsplit
    · next hminus => exact absurd (List.cons.inj hminus).1 hsign
    · cases hsplit
      rw [hwhole]
      cases hread : Number.readInteger 10 (c :: more) <;>
        simp [splitFraction_tail h, splitExponent_tail h, hread]

theorem toString_eq_cons (n : Int) :
    ∃ c more, (toString n).toList = c :: more ∧ Number.IsNumeric c ∧ more.head? ≠ some 'I' := by
  obtain ⟨c, more, hlist, hdigit⟩ := Number.toDigits_eq_cons n.natAbs
  rcases Int.lt_or_le n 0 with hneg | hpos
  · refine ⟨'-', c :: more, by rw [Number.toList_toString_of_neg hneg, hlist], .inr rfl, ?_⟩
    intro hhead
    cases hhead
    exact absurd hdigit (by decide)
  · refine ⟨c, more, by rw [Number.toList_toString_of_nonneg hpos, hlist], .inl hdigit, ?_⟩
    intro hhead
    have hmem : 'I' ∈ (toString n).toList := by
      rw [Number.toList_toString_of_nonneg hpos, hlist]
      exact List.mem_cons_of_mem _ (List.mem_of_mem_head? hhead)
    exact absurd (Number.isNumeric_of_mem_toString 'I' hmem).bounds (by decide)

theorem readWord?_of_isNumeric {c : Char} {more : List Char} (hc : Number.IsNumeric c)
    (hmore : more.head? ≠ some 'I') : readWord? (c :: more) = none := by
  have hbounds := hc.bounds
  have hletter : ∀ d : Char, 57 < d.toNat → c ≠ d := by
    rintro d hd rfl
    omega
  have hminus : dropStart? "-Infinity".toList (c :: more) = none := by
    change (if c = '-' then dropStart? "Infinity".toList more else none) = none
    split
    · cases more with
      | nil => rfl
      | cons d more => exact if_neg fun hd => hmore (congrArg some hd)
    · rfl
  have hnone : ∀ word ∈ words, dropStart? word.1.toList (c :: more) = none := by
    refine List.forall_mem_cons.mpr ⟨if_neg (hletter 'n' (by decide)), ?_⟩
    refine List.forall_mem_cons.mpr ⟨if_neg (hletter 't' (by decide)), ?_⟩
    refine List.forall_mem_cons.mpr ⟨if_neg (hletter 'f' (by decide)), ?_⟩
    refine List.forall_mem_cons.mpr ⟨if_neg (hletter 'N' (by decide)), ?_⟩
    refine List.forall_mem_cons.mpr ⟨if_neg (hletter 'I' (by decide)), ?_⟩
    exact List.forall_mem_singleton.mpr hminus
  unfold readWord?
  rw [List.findSome?_eq_none_iff]
  intro word hword
  exact Option.map_eq_none_iff.mpr (hnone word hword)

/-- A text that starts with a digit or a minus is read as a number. -/
theorem readValue_of_isNumeric {c : Char} {more : List Char} (hc : Number.IsNumeric c)
    (hmore : more.head? ≠ some 'I') (depth : Nat) :
    readValue depth (c :: more) = readNumber (c :: more) := by
  have hbounds := hc.bounds
  have hword := readWord?_of_isNumeric hc hmore
  have hne : ∀ d : Char, d.toNat < 45 ∨ 57 < d.toNat → c ≠ d := by
    rintro d hd rfl
    omega
  unfold readValue
  split
  · next hsame => exact absurd (List.cons.inj hsame).1 (hne _ (by decide))
  · next hsame => exact absurd (List.cons.inj hsame).1 (hne _ (by decide))
  · next hsame => exact absurd (List.cons.inj hsame).1 (hne _ (by decide))
  · next hsame => exact absurd (List.cons.inj hsame).1 (hne _ (by decide))
  · next hsame => exact absurd (List.cons.inj hsame).1 (hne _ (by decide))
  · rw [hword]

theorem readValue_toString (n : Int) (h : IsTail rest) (depth : Nat) :
    readValue depth ((toString n).toList ++ rest) = readNumber ((toString n).toList ++ rest) := by
  obtain ⟨c, more, hlist, hc, hmore⟩ := toString_eq_cons n
  rw [hlist, List.cons_append]
  refine readValue_of_isNumeric hc ?_ depth
  cases more with
  | nil =>
      intro hhead
      rcases h 'I' hhead with hwrong | hwrong | hwrong <;> cases hwrong
  | cons d more => exact hmore

theorem isFront_toString (n : Int) : IsFront (toString n).toList := by
  obtain ⟨c, more, hlist, hc, -⟩ := toString_eq_cons n
  have hbounds := hc.bounds
  have hne : ∀ d : Char, d.toNat < 45 ∨ 57 < d.toNat → c ≠ d := by
    rintro d hd rfl
    omega
  refine ⟨c, more, hlist, by omega, ?_, hne _ (by decide), hne _ (by decide)⟩
  simp [isSpace, hne]

theorem reads_int (depth : Nat) {n : Int} (h : ¬ Number.IsLong n) : Reads depth (.int n) := by
  refine ⟨isFront_toString n, fun rest htail => ?_⟩
  have hread := Number.readInteger_toString_of_short h
  rw [write, readValue_toString n htail, readNumber_toString n htail, hread]

theorem refuses_int (depth : Nat) {n : Int} (h : Number.IsLong n) :
    Refuses depth (.int n) .hugeInteger := by
  refine ⟨isFront_toString n, fun rest htail => ⟨((toString n).toList ++ rest).length, ?_⟩⟩
  have hread := Number.readInteger_toString_of_long h
  rw [write, readValue_toString n htail, readNumber_toString n htail, hread]
  rfl

/-! ## Arrays -/

theorem length_le_writeItems (items : List Json) : items.length ≤ (writeItems items).length := by
  induction items with
  | nil => exact Nat.zero_le _
  | cons item items ih =>
      rw [writeItems, List.length_append, List.length_cons, List.length_cons]
      omega

theorem readItemsFuel_close (h : item text = .ok (value, ']' :: rest)) (fuel : Nat) :
    readItemsFuel item (fuel + 1) text = .ok ([value], rest) := by
  rw [readItemsFuel, h]
  rfl

theorem readItemsFuel_comma (h : item text = .ok (value, ',' :: rest)) (fuel : Nat) :
    readItemsFuel item (fuel + 1) text =
      (readItemsFuel item fuel (skipSpace rest)).map fun found => (value :: found.1, found.2) := by
  rw [readItemsFuel, h]
  change Except.bind (readItemsFuel item fuel (skipSpace rest)) _ = _
  cases readItemsFuel item fuel (skipSpace rest) <;> rfl

/-- Written items are read one after the other. -/
theorem readItemsFuel_writeItems {first : Json} {items : List Json}
    (h : ∀ item ∈ first :: items, Reads depth item) (hfuel : items.length < fuel)
    (rest : List Char) :
    readItemsFuel (readValue depth) fuel (write first ++ (writeItems items ++ ']' :: rest)) =
      .ok (first :: items, rest) := by
  have hfirst := (h first List.mem_cons_self).read _ (isTail_writeItems items rest)
  obtain ⟨fuel, rfl⟩ := Nat.exists_eq_add_one.mpr (Nat.zero_lt_of_lt hfuel)
  induction items generalizing first fuel with
  | nil => exact readItemsFuel_close hfirst fuel
  | cons next items ih =>
      have hitems := fun item hitem => h item (List.mem_cons_of_mem first hitem)
      have hnext := hitems next List.mem_cons_self
      have hread := hnext.read _ (isTail_writeItems items rest)
      obtain ⟨fuel, rfl⟩ := Nat.exists_eq_add_one.mpr
        (Nat.zero_lt_of_lt (Nat.lt_of_succ_lt_succ hfuel))
      have hrest := ih hitems hread fuel (Nat.lt_of_succ_lt_succ hfuel)
      rw [writeItems, List.cons_append, List.cons_append, List.append_assoc] at hfirst ⊢
      rw [readItemsFuel_comma hfirst, hnext.front.skipSpace, hrest]
      rfl

theorem IsFront.cons {c : Char} {more : List Char} (h : c = '[' ∨ c = '\x7b') :
    IsFront (c :: more) := by
  rcases h with rfl | rfl
  · exact ⟨'[', more, rfl, by decide, rfl, by decide, by decide⟩
  · exact ⟨'\x7b', more, rfl, by decide, rfl, by decide, by decide⟩

theorem readValue_bracket (hfront : IsFront text) {items : List Json}
    (h : readItemsFuel (readValue depth) (text.length + 1) text = .ok (items, rest)) :
    readValue (depth + 1) ('[' :: text) = .ok (.array items, rest) := by
  have hskip := hfront.skipSpace []
  rw [List.append_nil] at hskip
  obtain ⟨c, more, rfl, -, -, hbracket, -⟩ := hfront
  rw [readValue, hskip]
  split
  · next hsame => exact absurd (List.cons.inj hsame).1 hbracket
  · rw [h]
    rfl

theorem reads_array {items : List Json} (h : ∀ item ∈ items, Reads depth item) :
    Reads (depth + 1) (.array items) := by
  cases items with
  | nil => exact ⟨.cons (.inl rfl), fun rest _ => rfl⟩
  | cons first items =>
      refine ⟨.cons (.inl rfl), fun rest _ => ?_⟩
      obtain ⟨c, more, hwrite, hfront⟩ := (h first List.mem_cons_self).front
      have hlength := length_le_writeItems items
      have htext : write (.array (first :: items)) ++ rest =
          '[' :: (write first ++ (writeItems items ++ ']' :: rest)) := by
        simp [write]
      rw [htext]
      refine readValue_bracket ⟨c, more ++ (writeItems items ++ ']' :: rest), by rw [hwrite]; rfl,
        hfront⟩ (readItemsFuel_writeItems h ?_ rest)
      simp only [List.length_append]
      omega

/-! ## Objects -/

/-- One written field of an object. -/
def writeField (field : String × Json) : List Char :=
  writeString field.1 ++ ':' :: write field.2

theorem length_le_writeFields (fields : List (String × Json)) :
    fields.length ≤ (writeFields fields).length := by
  induction fields with
  | nil => exact Nat.zero_le _
  | cons field fields ih =>
      rw [writeFields, List.length_append, List.length_cons]
      simp only [List.length_append, List.length_cons]
      omega

theorem writeFields_cons (field : String × Json) (fields : List (String × Json)) :
    writeFields (field :: fields) = ',' :: (writeField field ++ writeFields fields) := by
  simp [writeFields, writeField]

theorem skipSpace_writeField (field : String × Json) (rest : List Char) :
    skipSpace (writeField field ++ rest) = writeField field ++ rest := rfl

theorem textOfCodes_units (text : String) :
    textOfCodes (joinSurrogates (text.toList.flatMap units)) = text := by
  rw [joinSurrogates_flatMap, textOfCodes_map, String.ofList_toList]

section Fields

variable {field : String × Json} (hfront : IsFront (write field.2))

include hfront

/-- A written field is read up to its value. -/
theorem readFieldsFuel_writeField (fuel : Nat) (tail : List Char) :
    readFieldsFuel item (fuel + 1) (writeField field ++ tail) = (do
      let (value, rest) ← item (write field.2 ++ tail)
      match skipSpace rest with
      | '\x7d' :: rest => .ok ([(field.1, value)], rest)
      | ',' :: rest => do
          let (fields, rest) ← readFieldsFuel item fuel (skipSpace rest)
          .ok ((field.1, value) :: fields, rest)
      | rest => stopAt .expectedComma rest) := by
  have hcodes := readCodes_flatMap field.1.toList (':' :: (write field.2 ++ tail))
  have htext : writeField field ++ tail =
      '\x22' :: (field.1.toList.flatMap writeChar ++ '\x22' :: ':' :: (write field.2 ++ tail)) := by
    unfold writeField
    rw [List.append_assoc, writeString_append, List.cons_append]
  have hskip := hfront.skipSpace tail
  rw [htext, readFieldsFuel, hcodes]
  change (do
    let (value, rest) ← item (skipSpace (write field.2 ++ tail))
    let field := (textOfCodes (joinSurrogates (field.1.toList.flatMap units)), value)
    match skipSpace rest with
    | '\x7d' :: rest => Except.ok ([field], rest)
    | ',' :: rest => do
        let (fields, rest) ← readFieldsFuel item fuel (skipSpace rest)
        .ok (field :: fields, rest)
    | rest => stopAt .expectedComma rest) = _
  rw [hskip, textOfCodes_units]

theorem readFieldsFuel_close {tail : List Char}
    (h : item (write field.2 ++ tail) = .ok (value, '\x7d' :: rest)) (fuel : Nat) :
    readFieldsFuel item (fuel + 1) (writeField field ++ tail) = .ok ([(field.1, value)], rest) := by
  rw [readFieldsFuel_writeField hfront, h]
  rfl

theorem readFieldsFuel_comma {tail : List Char}
    (h : item (write field.2 ++ tail) = .ok (value, ',' :: rest)) (fuel : Nat) :
    readFieldsFuel item (fuel + 1) (writeField field ++ tail) =
      (readFieldsFuel item fuel (skipSpace rest)).map
        fun found => ((field.1, value) :: found.1, found.2) := by
  rw [readFieldsFuel_writeField hfront, h]
  change Except.bind (readFieldsFuel item fuel (skipSpace rest)) _ = _
  cases readFieldsFuel item fuel (skipSpace rest) <;> rfl

theorem readFieldsFuel_stop {tail : List Char} {stop : Stop}
    (h : item (write field.2 ++ tail) = .error stop) (fuel : Nat) :
    readFieldsFuel item (fuel + 1) (writeField field ++ tail) = .error stop := by
  rw [readFieldsFuel_writeField hfront, h]
  rfl

end Fields

/-- Written fields are read one after the other. -/
theorem readFieldsFuel_writeFields {first : String × Json} {fields : List (String × Json)}
    (h : ∀ field ∈ first :: fields, Reads depth field.2) (hfuel : fields.length < fuel)
    (rest : List Char) :
    readFieldsFuel (readValue depth) fuel
        (writeField first ++ (writeFields fields ++ '\x7d' :: rest)) =
      .ok (first :: fields, rest) := by
  obtain ⟨fuel, rfl⟩ := Nat.exists_eq_add_one.mpr (Nat.zero_lt_of_lt hfuel)
  have hfirst := h first List.mem_cons_self
  have hread := hfirst.read _ (isTail_writeFields fields rest)
  induction fields generalizing first fuel with
  | nil => exact readFieldsFuel_close hfirst.front hread fuel
  | cons next fields ih =>
      have hfields := fun field hfield => h field (List.mem_cons_of_mem first hfield)
      have hnext := hfields next List.mem_cons_self
      obtain ⟨fuel, rfl⟩ := Nat.exists_eq_add_one.mpr
        (Nat.zero_lt_of_lt (Nat.lt_of_succ_lt_succ hfuel))
      have hrest := ih hfields fuel (Nat.lt_of_succ_lt_succ hfuel) hnext
        (hnext.read _ (isTail_writeFields fields rest))
      rw [writeFields_cons, List.cons_append, List.append_assoc] at hread ⊢
      rw [readFieldsFuel_comma hfirst.front hread, skipSpace_writeField, hrest]
      rfl

/-- The reader stops at the first field whose value it does not take. -/
theorem readFieldsFuel_refused {first : String × Json} {fields before after : List (String × Json)}
    {field : String × Json} {fault : Fault} (hsplit : first :: fields = before ++ field :: after)
    (h : ∀ field ∈ before, Reads depth field.2) (hrefuses : Refuses depth field.2 fault)
    (hfuel : fields.length < fuel) (rest : List Char) :
    ∃ remaining, readFieldsFuel (readValue depth) fuel
        (writeField first ++ (writeFields fields ++ '\x7d' :: rest)) =
      .error ⟨fault, remaining⟩ := by
  obtain ⟨fuel, rfl⟩ := Nat.exists_eq_add_one.mpr (Nat.zero_lt_of_lt hfuel)
  induction before generalizing first fields fuel with
  | nil =>
      obtain ⟨rfl, rfl⟩ := List.cons.inj hsplit
      obtain ⟨remaining, hstop⟩ := hrefuses.stop _ (isTail_writeFields fields rest)
      exact ⟨remaining, readFieldsFuel_stop hrefuses.front hstop fuel⟩
  | cons head before ih =>
      rw [List.cons_append] at hsplit
      obtain ⟨rfl, rfl⟩ := List.cons.inj hsplit
      have hhead := h first List.mem_cons_self
      have hbefore := fun field hfield => h field (List.mem_cons_of_mem first hfield)
      obtain ⟨next, more, hmore⟩ : ∃ next more, before ++ field :: after = next :: more :=
        List.exists_cons_of_ne_nil (by simp)
      rw [hmore] at hfuel ⊢
      have hread := hhead.read _ (isTail_writeFields (next :: more) rest)
      obtain ⟨fuel, rfl⟩ := Nat.exists_eq_add_one.mpr
        (Nat.zero_lt_of_lt (Nat.lt_of_succ_lt_succ hfuel))
      obtain ⟨remaining, hstop⟩ := ih hmore.symm hbefore fuel (Nat.lt_of_succ_lt_succ hfuel)
      refine ⟨remaining, ?_⟩
      rw [writeFields_cons, List.cons_append, List.append_assoc] at hread ⊢
      rw [readFieldsFuel_comma hhead.front hread, skipSpace_writeField, hstop]
      rfl

theorem setField_of_not_mem {name : String} {fields : List (String × Json)}
    (h : name ∉ fields.map Prod.fst) (value : Json) :
    setField name value fields = fields ++ [(name, value)] := by
  induction fields with
  | nil => rfl
  | cons field fields ih =>
      rw [List.map_cons, List.mem_cons, not_or] at h
      rw [setField, if_neg fun hsame => h.1 hsame.symm, ih h.2, List.cons_append]

/-- Fields with different names are set as they stand. -/
theorem foldl_setField {all fields : List (String × Json)}
    (h : ((all ++ fields).map Prod.fst).Nodup) :
    fields.foldl (fun all field => setField field.1 field.2 all) all = all ++ fields := by
  induction fields generalizing all with
  | nil => exact (List.append_nil all).symm
  | cons field fields ih =>
      rw [List.append_cons] at h ⊢
      have hnew : field.1 ∉ all.map Prod.fst := by
        intro hmem
        rw [List.map_append, List.map_append, List.nodup_append] at h
        have hall := (List.nodup_append.mp h.1).2.2
        exact hall field.1 hmem field.1 (List.mem_singleton_self _) rfl
      rw [List.foldl_cons, setField_of_not_mem hnew, ih h]

/-- The object of fields that were read. -/
def objectOf (fields : List (String × Json)) : Json :=
  .object (fields.foldl (fun all field => setField field.1 field.2 all) [])

theorem objectOf_of_nodup {fields : List (String × Json)} (h : (fields.map Prod.fst).Nodup) :
    objectOf fields = .object fields :=
  congrArg Json.object (foldl_setField h)

theorem readValue_brace (depth : Nat) (field : String × Json) (tail : List Char) :
    readValue (depth + 1) ('\x7b' :: (writeField field ++ tail)) =
      (readFieldsFuel (readValue depth) ((writeField field ++ tail).length + 1)
        (writeField field ++ tail)).map fun found => (objectOf found.1, found.2) := by
  rw [readValue, skipSpace_writeField]
  change Except.bind (readFieldsFuel (readValue depth) ((writeField field ++ tail).length + 1)
    (writeField field ++ tail)) _ = _
  cases readFieldsFuel (readValue depth) ((writeField field ++ tail).length + 1)
    (writeField field ++ tail) <;> rfl

theorem write_object (first : String × Json) (fields : List (String × Json)) (rest : List Char) :
    write (.object (first :: fields)) ++ rest =
      '\x7b' :: (writeField first ++ (writeFields fields ++ '\x7d' :: rest)) := by
  simp [write, writeField]

theorem reads_object {fields : List (String × Json)} (hnames : (fields.map Prod.fst).Nodup)
    (h : ∀ field ∈ fields, Reads depth field.2) : Reads (depth + 1) (.object fields) := by
  cases fields with
  | nil => exact ⟨.cons (.inr rfl), fun rest _ => rfl⟩
  | cons first fields =>
      refine ⟨.cons (.inr rfl), fun rest _ => ?_⟩
      have hlength := length_le_writeFields fields
      rw [write_object, readValue_brace, readFieldsFuel_writeFields h _ rest]
      · exact congrArg (fun value => Except.ok (value, rest)) (objectOf_of_nodup hnames)
      · simp only [List.length_append]
        omega

theorem refuses_object {before after : List (String × Json)} {field : String × Json} {fault : Fault}
    (h : ∀ field ∈ before, Reads depth field.2) (hrefuses : Refuses depth field.2 fault) :
    Refuses (depth + 1) (.object (before ++ field :: after)) fault := by
  obtain ⟨first, fields, hsplit⟩ : ∃ first fields, before ++ field :: after = first :: fields :=
    List.exists_cons_of_ne_nil (by simp)
  rw [hsplit]
  refine ⟨.cons (.inr rfl), fun rest _ => ?_⟩
  have hlength := length_le_writeFields fields
  rw [write_object, readValue_brace]
  obtain ⟨remaining, hstop⟩ := readFieldsFuel_refused hsplit.symm h hrefuses
    (show fields.length < (writeField first ++ (writeFields fields ++ '\x7d' :: rest)).length + 1 by
      simp only [List.length_append]
      omega) rest
  refine ⟨remaining, ?_⟩
  rw [hstop]
  rfl

/-! ## Whole values -/

/-- The values that keep their form as text, given how deep they nest. -/
inductive IsPortable : Nat → Json → Prop
  | null (depth : Nat) : IsPortable depth .null
  | bool (depth : Nat) (b : Bool) : IsPortable depth (.bool b)
  | int (depth : Nat) {n : Int} (h : ¬ Number.IsLong n) : IsPortable depth (.int n)
  | string (depth : Nat) (text : String) : IsPortable depth (.string text)
  | array {depth : Nat} {items : List Json} (h : ∀ item ∈ items, IsPortable depth item) :
      IsPortable (depth + 1) (.array items)
  | object {depth : Nat} {fields : List (String × Json)} (distinct : (fields.map Prod.fst).Nodup)
      (h : ∀ field ∈ fields, IsPortable depth field.2) : IsPortable (depth + 1) (.object fields)

theorem IsPortable.reads (h : IsPortable depth value) : Reads depth value := by
  induction h with
  | null depth => exact reads_null depth
  | bool depth b => exact reads_bool depth b
  | int depth h => exact reads_int depth h
  | string depth text => exact reads_string depth text
  | array _ ih => exact reads_array ih
  | object hnames _ ih => exact reads_object hnames ih

/-- A value is read from its text. -/
theorem read_write (h : IsPortable maxDepth value) : read (write value) = .ok value := by
  have hskip := h.reads.front.skipSpace []
  have hread := h.reads.read [] isTail_nil
  rw [List.append_nil] at hskip hread
  unfold read
  rw [hskip, hread]
  rfl

theorem read_write_refused {fault : Fault} (h : Refuses maxDepth value fault) :
    ∃ position, read (write value) = .error ⟨fault, position⟩ := by
  have hskip := h.front.skipSpace []
  obtain ⟨remaining, hstop⟩ := h.stop [] isTail_nil
  rw [List.append_nil] at hskip hstop
  refine ⟨(write value).length - remaining, ?_⟩
  unfold read
  rw [hskip, hstop]
  rfl

end SourceAtlas.Json
