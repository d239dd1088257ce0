import SourceAtlas.Text.Draft

/-!
# Encoding and decoding

Decoding undoes encoding. Bytes that decode are the encoding of what they decode to, and the
encoding of a text in front of any bytes is read as this text by the replacing decoder. Whatever else
the bytes are, a text that is read from within them is encoded there.
-/

namespace SourceAtlas.Text

namespace Utf8

theorem toNat_ofNat {n : Nat} (h : n.isValidChar) : (Char.ofNat n).toNat = n := by
  unfold Char.ofNat
  rw [dif_pos h]
  rfl

theorem byte_eq (b : UInt8) {n : Nat} (h : n = b.toNat) : byte n = b := by
  rw [h]
  exact UInt8.ofNat_toNat

theorem toNat_byte {n : Nat} (h : n < 256) : (byte n).toNat = n := by
  simp only [byte, UInt8.toNat_ofNat']
  omega

theorem isContinuation_iff {b : UInt8} :
    isContinuation b = true ↔ 128 ≤ b.toNat ∧ b.toNat < 192 := by
  simp [isContinuation, UInt8.le_iff_toNat_le, UInt8.lt_iff_toNat_lt]

/-- The second byte in numbers. -/
theorem isSecond_iff {lead second : UInt8} :
    isSecond lead second = true ↔ 128 ≤ second.toNat ∧ second.toNat < 192 ∧
      (lead.toNat = 224 → 160 ≤ second.toNat) ∧ (lead.toNat = 237 → second.toNat < 160) ∧
      (lead.toNat = 240 → 144 ≤ second.toNat) ∧ (lead.toNat = 244 → second.toNat < 144) := by
  unfold isSecond
  simp only [← UInt8.toNat_inj, UInt8.toNat_ofNat]
  split
  · simp [UInt8.le_iff_toNat_le, UInt8.lt_iff_toNat_lt]
    omega
  · split
    · simp [UInt8.le_iff_toNat_le, UInt8.lt_iff_toNat_lt]
      omega
    · split
      · simp [UInt8.le_iff_toNat_le, UInt8.lt_iff_toNat_lt]
        omega
      · split
        · simp [UInt8.le_iff_toNat_le, UInt8.lt_iff_toNat_lt]
          omega
        · rw [isContinuation_iff]
          omega

/-! ## From bytes to characters -/

section Head

variable {lead : UInt8} {rest : List UInt8} {c : Char} {extra : Nat}

theorem encodeChar_of_headOfTwo (hlow : 194 ≤ lead.toNat) (hhigh : lead.toNat < 224)
    (h : headOfTwo lead rest = .char c extra) :
    ∃ tail, rest = tail ++ rest.drop extra ∧ encodeChar c = lead :: tail := by
  unfold headOfTwo at h
  cases rest with
  | nil => cases h
  | cons b rest =>
      dsimp only at h
      split at h
      · next hsecond =>
          cases h
          obtain ⟨hb, hb', -⟩ := isSecond_iff.mp hsecond
          refine ⟨[b], rfl, ?_⟩
          have hn : (Char.ofNat (lead.toNat % 32 * 64 + payload b)).toNat =
              lead.toNat % 32 * 64 + payload b := toNat_ofNat (by unfold payload; left; omega)
          unfold encodeChar
          rw [hn]
          unfold payload
          rw [if_neg (by omega), if_pos (by omega), byte_eq lead (by omega),
            byte_eq b (by omega)]
      · cases h

theorem encodeChar_of_headOfThree (hlow : 224 ≤ lead.toNat) (hhigh : lead.toNat < 240)
    (h : headOfThree lead rest = .char c extra) :
    ∃ tail, rest = tail ++ rest.drop extra ∧ encodeChar c = lead :: tail := by
  unfold headOfThree at h
  cases rest with
  | nil => cases h
  | cons b rest =>
      dsimp only at h
      split at h
      · next hsecond =>
          cases rest with
          | nil => cases h
          | cons d rest =>
              dsimp only at h
              split at h
              · next hthird =>
                  cases h
                  obtain ⟨hb, hb', he0, hed, -⟩ := isSecond_iff.mp hsecond
                  obtain ⟨hd, hd'⟩ := isContinuation_iff.mp hthird
                  refine ⟨[b, d], rfl, ?_⟩
                  have hn : (Char.ofNat (lead.toNat % 16 * 4096 + payload b * 64 + payload d)).toNat =
                      lead.toNat % 16 * 4096 + payload b * 64 + payload d := by
                    refine toNat_ofNat ?_
                    unfold payload Nat.isValidChar
                    omega
                  unfold encodeChar
                  rw [hn]
                  unfold payload
                  rw [if_neg (by omega), if_neg (by omega), if_pos (by omega),
                    byte_eq lead (by omega), byte_eq b (by omega), byte_eq d (by omega)]
              · cases h
      · cases h

theorem encodeChar_of_headOfFour (hlow : 240 ≤ lead.toNat) (hhigh : lead.toNat < 245)
    (h : headOfFour lead rest = .char c extra) :
    ∃ tail, rest = tail ++ rest.drop extra ∧ encodeChar c = lead :: tail := by
  unfold headOfFour at h
  cases rest with
  | nil => cases h
  | cons b rest =>
      dsimp only at h
      split at h
      · next hsecond =>
          cases rest with
          | nil => cases h
          | cons d rest =>
              dsimp only at h
              split at h
              · next hthird =>
                  cases rest with
                  | nil => cases h
                  | cons e rest =>
                      dsimp only at h
                      split at h
                      · next hfourth =>
                          cases h
                          obtain ⟨hb, hb', -, -, hf0, hf4⟩ := isSecond_iff.mp hsecond
                          obtain ⟨hd, hd'⟩ := isContinuation_iff.mp hthird
                          obtain ⟨he, he'⟩ := isContinuation_iff.mp hfourth
                          refine ⟨[b, d, e], rfl, ?_⟩
                          have hn : (Char.ofNat (lead.toNat % 8 * 262144 + payload b * 4096 +
                              payload d * 64 + payload e)).toNat =
                              lead.toNat % 8 * 262144 + payload b * 4096 + payload d * 64 +
                                payload e := by
                            refine toNat_ofNat ?_
                            unfold payload Nat.isValidChar
                            omega
                          unfold encodeChar
                          rw [hn]
                          unfold payload
                          rw [if_neg (by omega), if_neg (by omega), if_neg (by omega),
                            byte_eq lead (by omega), byte_eq b (by omega), byte_eq d (by omega),
                            byte_eq e (by omega)]
                      · cases h
              · cases h
      · cases h

/-- A character at the head of bytes is encoded as the bytes that it was read from. -/
theorem encodeChar_of_head (h : head lead rest = .char c extra) :
    ∃ tail, rest = tail ++ rest.drop extra ∧ encodeChar c = lead :: tail := by
  unfold head at h
  simp only [UInt8.lt_iff_toNat_lt, UInt8.toNat_ofNat] at h
  split at h
  · next hlow =>
      cases h
      have hn : (Char.ofNat lead.toNat).toNat = lead.toNat := toNat_ofNat (by left; omega)
      refine ⟨[], rfl, ?_⟩
      unfold encodeChar
      rw [hn, if_pos (by omega), byte_eq lead rfl]
  · split at h
    · cases h
    · split at h
      · exact encodeChar_of_headOfTwo (by omega) (by omega) h
      · split at h
        · exact encodeChar_of_headOfThree (by omega) (by omega) h
        · split at h
          · exact encodeChar_of_headOfFour (by omega) (by omega) h
          · cases h

end Head

theorem encode_of_decodeFrom {position : Nat} {bytes : List UInt8} {text : List Char}
    (h : decodeFrom position bytes = .ok text) : encode text = bytes := by
  induction position, bytes using decodeFrom.induct generalizing text with
  | case1 position =>
      rw [decodeFrom] at h
      cases h
      rfl
  | case2 position lead rest c extra hhead ih =>
      rw [decodeFrom, hhead] at h
      dsimp only at h
      cases hrest : decodeFrom (position + 1 + extra) (rest.drop extra) with
      | error cause => rw [hrest] at h; cases h
      | ok behind =>
          rw [hrest] at h
          cases h
          obtain ⟨tail, htail, hchar⟩ := encodeChar_of_head hhead
          have hbehind := ih hrest
          unfold encode at hbehind ⊢
          rw [List.flatMap_cons, hchar, hbehind, List.cons_append, ← htail]
  | case3 position lead rest fault extra hhead =>
      rw [decodeFrom, hhead] at h
      cases h

/-- Bytes that decode are the encoding of what they decode to. -/
theorem encode_of_decode {bytes : List UInt8} {text : List Char} (h : decode bytes = .ok text) :
    encode text = bytes := encode_of_decodeFrom h

/-! ## From characters to bytes -/

theorem ofNat_eq (c : Char) {n : Nat} (h : n = c.toNat) : Char.ofNat n = c := by
  rw [h, Char.ofNat_toNat]

section Char

variable {c : Char}

theorem head_of_one (hhigh : c.toNat < 128) (bytes : List UInt8) :
    head (byte c.toNat) bytes = .char c 0 := by
  unfold head
  simp only [UInt8.lt_iff_toNat_lt, UInt8.toNat_ofNat]
  rw [toNat_byte (by omega), if_pos hhigh, ofNat_eq c rfl]

theorem head_of_two (hlow : 128 ≤ c.toNat) (hhigh : c.toNat < 2048) (bytes : List UInt8) :
    head (byte (0xC0 + c.toNat / 64)) (byte (0x80 + c.toNat % 64) :: bytes) = .char c 1 := by
  have hlead := toNat_byte (show 0xC0 + c.toNat / 64 < 256 by omega)
  have hb := toNat_byte (show 0x80 + c.toNat % 64 < 256 by omega)
  unfold head
  simp only [UInt8.lt_iff_toNat_lt, UInt8.toNat_ofNat]
  rw [if_neg (by omega), if_neg (by omega), if_pos (by omega)]
  simp only [headOfTwo, payload]
  rw [if_pos (isSecond_iff.mpr (by omega)), ofNat_eq c (by omega)]

theorem head_of_three (hlow : 2048 ≤ c.toNat) (hhigh : c.toNat < 65536) (bytes : List UInt8) :
    head (byte (0xE0 + c.toNat / 4096))
        (byte (0x80 + c.toNat / 64 % 64) :: byte (0x80 + c.toNat % 64) :: bytes) = .char c 2 := by
  have hvalid : c.toNat.isValidChar := c.valid
  have hlead := toNat_byte (show 0xE0 + c.toNat / 4096 < 256 by omega)
  have hb := toNat_byte (show 0x80 + c.toNat / 64 % 64 < 256 by omega)
  have hd := toNat_byte (show 0x80 + c.toNat % 64 < 256 by omega)
  unfold Nat.isValidChar at hvalid
  unfold head
  simp only [UInt8.lt_iff_toNat_lt, UInt8.toNat_ofNat]
  rw [if_neg (by omega), if_neg (by omega), if_neg (by omega), if_pos (by omega)]
  simp only [headOfThree, payload]
  rw [if_pos (isSecond_iff.mpr (by omega)), if_pos (isContinuation_iff.mpr (by omega)),
    ofNat_eq c (by omega)]

theorem head_of_four (hlow : 65536 ≤ c.toNat) (bytes : List UInt8) :
    head (byte (0xF0 + c.toNat / 262144))
        (byte (0x80 + c.toNat / 4096 % 64) :: byte (0x80 + c.toNat / 64 % 64) ::
          byte (0x80 + c.toNat % 64) :: bytes) = .char c 3 := by
  have hvalid : c.toNat.isValidChar := c.valid
  unfold Nat.isValidChar at hvalid
  have hlead := toNat_byte (show 0xF0 + c.toNat / 262144 < 256 by omega)
  have hb := toNat_byte (show 0x80 + c.toNat / 4096 % 64 < 256 by omega)
  have hd := toNat_byte (show 0x80 + c.toNat / 64 % 64 < 256 by omega)
  have he := toNat_byte (show 0x80 + c.toNat % 64 < 256 by omega)
  unfold head
  simp only [UInt8.lt_iff_toNat_lt, UInt8.toNat_ofNat]
  rw [if_neg (by omega), if_neg (by omega), if_neg (by omega), if_neg (by omega),
    if_pos (by omega)]
  unfold headOfFour payload
  dsimp only
  rw [if_pos (isSecond_iff.mpr (by omega)), if_pos (isContinuation_iff.mpr (by omega)),
    if_pos (isContinuation_iff.mpr (by omega)), ofNat_eq c (by omega)]

end Char

/-- The head of the encoding of a character is this character, whatever follows. -/
theorem head_encodeChar (c : Char) (bytes : List UInt8) :
    ∃ lead tail, encodeChar c = lead :: tail ∧
      head lead (tail ++ bytes) = .char c tail.length := by
  unfold encodeChar
  dsimp only
  split
  · next hone => exact ⟨_, _, rfl, head_of_one hone bytes⟩
  split
  · next hone htwo => exact ⟨_, _, rfl, head_of_two (Nat.not_lt.mp hone) htwo bytes⟩
  split
  · next htwo hthree => exact ⟨_, _, rfl, head_of_three (Nat.not_lt.mp htwo) hthree bytes⟩
  · next hthree => exact ⟨_, _, rfl, head_of_four (Nat.not_lt.mp hthree) bytes⟩

theorem encode_append (first second : List Char) :
    encode (first ++ second) = encode first ++ encode second := List.flatMap_append ..

/-- The encoding of a text begins with that of its first character, which is read from it. -/
theorem encode_cons_append (c : Char) (text : List Char) (bytes : List UInt8) :
    ∃ lead tail, encode (c :: text) ++ bytes = lead :: (tail ++ (encode text ++ bytes)) ∧
      head lead (tail ++ (encode text ++ bytes)) = .char c tail.length := by
  obtain ⟨lead, tail, hchar, hhead⟩ := head_encodeChar c (encode text ++ bytes)
  refine ⟨lead, tail, ?_, hhead⟩
  unfold encode
  rw [List.flatMap_cons, hchar, List.append_assoc, List.cons_append]

/-- An encoded text in front of any bytes is read as this text. -/
theorem decodeReplacing_encode_append (text : List Char) (bytes : List UInt8) :
    decodeReplacing (encode text ++ bytes) = text ++ decodeReplacing bytes := by
  induction text with
  | nil => rfl
  | cons c text ih =>
      obtain ⟨lead, tail, hencode, hhead⟩ := encode_cons_append c text bytes
      rw [hencode, decodeReplacing, hhead]
      dsimp only
      rw [List.drop_left, ih, List.cons_append]

theorem decodeReplacing_encode (text : List Char) : decodeReplacing (encode text) = text := by
  have h := decodeReplacing_encode_append text []
  rwa [List.append_nil, decodeReplacing, List.append_nil] at h

theorem decodeFrom_encode (position : Nat) (text : List Char) :
    decodeFrom position (encode text) = .ok text := by
  induction text generalizing position with
  | nil => rw [encode, List.flatMap_nil, decodeFrom]
  | cons c text ih =>
      obtain ⟨lead, tail, hencode, hhead⟩ := encode_cons_append c text []
      rw [List.append_nil, List.append_nil] at hencode
      rw [List.append_nil] at hhead
      rw [hencode, decodeFrom, hhead]
      dsimp only
      rw [List.drop_left, ih]
      rfl

theorem decode_encode (text : List Char) : decode (encode text) = .ok text :=
  decodeFrom_encode 0 text

/-- Bytes that are the encoding of no text are turned down. -/
theorem exists_decode_eq_error {bytes : List UInt8} (h : ∀ text, encode text ≠ bytes) :
    ∃ cause, decode bytes = .error cause := by
  cases hdecode : decode bytes with
  | error cause => exact ⟨cause, rfl⟩
  | ok text => exact absurd (encode_of_decode hdecode) (h text)

/-- Where both decoders read the bytes, they read the same. -/
theorem decodeReplacing_of_decode {bytes : List UInt8} {text : List Char}
    (h : decode bytes = .ok text) : decodeReplacing bytes = text := by
  rw [← encode_of_decode h, decodeReplacing_encode]

/-! ## Texts read from within bytes -/

/-- One character is read from some of the bytes, the rest from the others. -/
theorem decodeReplacing_cons {bytes : List UInt8} {c : Char} {back : List Char}
    (h : decodeReplacing bytes = c :: back) :
    ∃ lead rest extra, bytes = lead :: rest ∧ decodeReplacing (rest.drop extra) = back ∧
      (head lead rest = .char c extra ∨ c = Char.ofNat 0xFFFD) := by
  cases bytes with
  | nil =>
      rw [decodeReplacing] at h
      cases h
  | cons lead rest =>
      rw [decodeReplacing] at h
      cases hhead : head lead rest with
      | char d extra =>
          rw [hhead] at h
          obtain ⟨rfl, hback⟩ := List.cons.inj h
          exact ⟨lead, rest, extra, rfl, hback, .inl hhead⟩
      | malformed fault extra =>
          rw [hhead] at h
          obtain ⟨rfl, hback⟩ := List.cons.inj h
          exact ⟨lead, rest, extra, rfl, hback, .inr rfl⟩

/-- Where the text that is read is cut, the bytes are cut as well. -/
theorem exists_of_decodeReplacing_append {bytes : List UInt8} {front back : List Char}
    (h : decodeReplacing bytes = front ++ back) :
    ∃ first second, bytes = first ++ second ∧ decodeReplacing second = back := by
  induction front generalizing bytes with
  | nil => exact ⟨[], bytes, rfl, h⟩
  | cons c front ih =>
      obtain ⟨lead, rest, extra, rfl, hrest, -⟩ := decodeReplacing_cons h
      obtain ⟨first, second, hsplit, hsecond⟩ := ih hrest
      refine ⟨lead :: (rest.take extra ++ first), second, ?_, hsecond⟩
      rw [List.cons_append, List.append_assoc, ← hsplit, List.take_append_drop]

/-- A text without replacement characters is read from its encoding only. -/
theorem exists_of_decodeReplacing_eq {bytes : List UInt8} {text back : List Char}
    (htext : Char.ofNat 0xFFFD ∉ text) (h : decodeReplacing bytes = text ++ back) :
    ∃ second, bytes = encode text ++ second ∧ decodeReplacing second = back := by
  induction text generalizing bytes with
  | nil => exact ⟨bytes, rfl, h⟩
  | cons c text ih =>
      obtain ⟨lead, rest, extra, rfl, hrest, hread⟩ := decodeReplacing_cons h
      have hc : c ≠ Char.ofNat 0xFFFD := fun hsame => htext (hsame ▸ List.mem_cons_self)
      obtain ⟨tail, htail, hchar⟩ := encodeChar_of_head (hread.resolve_right hc)
      obtain ⟨second, hsplit, hsecond⟩ :=
        ih (fun hmem => htext (List.mem_cons_of_mem _ hmem)) hrest
      refine ⟨second, ?_, hsecond⟩
      unfold encode at hsplit ⊢
      rw [List.flatMap_cons, hchar, List.append_assoc, ← hsplit, List.cons_append, ← htail]

/-- A text without replacement characters that is read from bytes is encoded in them. -/
theorem encode_isInfix {bytes : List UInt8} {text : List Char} (htext : Char.ofNat 0xFFFD ∉ text)
    (h : text <:+: decodeReplacing bytes) : encode text <:+: bytes := by
  obtain ⟨front, back, hsplit⟩ := h
  rw [List.append_assoc] at hsplit
  obtain ⟨first, second, rfl, hsecond⟩ := exists_of_decodeReplacing_append hsplit.symm
  obtain ⟨last, rfl, -⟩ := exists_of_decodeReplacing_eq htext hsecond
  exact ⟨first, last, by rw [List.append_assoc]⟩

end Utf8

/-! ## Drafts without surrogates -/

namespace Draft

theorem encodeFrom_chars (position : Nat) (text : List Char) :
    encodeFrom position (text.map .char) = .ok (Utf8.encode text) := by
  induction text generalizing position with
  | nil => rfl
  | cons c text ih =>
      rw [List.map_cons, encodeFrom, ih]
      rfl

theorem encode_ofList (text : List Char) : (ofList text).encode = .ok (Utf8.encode text) :=
  encodeFrom_chars 0 text

theorem ofList_append (first second : List Char) :
    (ofList first).append second = ofList (first ++ second) := by
  simp [ofList, append]

end Draft

end SourceAtlas.Text
