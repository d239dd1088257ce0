import SourceAtlas.Proofs.Text.Newline
import SourceAtlas.Proofs.Text.Utf8

/-!
# Line breaks with a return

Bytes in which every line feed gets a return in front of it read as before, well-formed or not. A
malformed sequence that ends at a line feed ends at the return in its place, and the pair of both is
translated back to one line break.
-/

namespace SourceAtlas.Text

/-- The text with a return in front of every line feed. -/
def withReturns (text : List Char) : List Char :=
  text.flatMap fun c => if c = '\n' then ['\r', '\n'] else [c]

@[simp] theorem withReturns_feed (rest : List Char) :
    withReturns ('\n' :: rest) = '\r' :: '\n' :: withReturns rest := rfl

theorem withReturns_cons {c : Char} (h : c ≠ '\n') (rest : List Char) :
    withReturns (c :: rest) = c :: withReturns rest := by
  simp [withReturns, h]

namespace Utf8

/-- The bytes with a return in front of every line feed. -/
def withReturns (bytes : List UInt8) : List UInt8 :=
  bytes.flatMap fun b => if b = 0x0A then [0x0D, 0x0A] else [b]

@[simp] theorem withReturns_nil : withReturns [] = [] := rfl

@[simp] theorem withReturns_feed (rest : List UInt8) :
    withReturns (0x0A :: rest) = 0x0D :: 0x0A :: withReturns rest := rfl

theorem withReturns_cons {b : UInt8} (h : b ≠ 0x0A) (rest : List UInt8) :
    withReturns (b :: rest) = b :: withReturns rest := by
  simp [withReturns, h]

theorem length_withReturns (bytes : List UInt8) :
    (withReturns bytes).length = bytes.length + bytes.count 0x0A := by
  induction bytes with
  | nil => rfl
  | cons b rest ih =>
      by_cases hb : b = 0x0A
      · subst hb
        simp [ih]
        omega
      · simp [withReturns_cons hb, ih, hb]
        omega

theorem drop_withReturns {count : Nat} {bytes : List UInt8} (h : 0x0A ∉ bytes.take count) :
    (withReturns bytes).drop count = withReturns (bytes.drop count) := by
  induction count generalizing bytes with
  | zero => rfl
  | succ count ih =>
      cases bytes with
      | nil => rfl
      | cons b rest =>
          rw [List.take_succ_cons, List.mem_cons, not_or] at h
          rw [withReturns_cons (Ne.symm h.1), List.drop_succ_cons, List.drop_succ_cons, ih h.2]

/-! ## Heads in front of a line break -/

/-- How many bytes after the first belong to a head. -/
def Head.extra : Head → Nat
  | char _ extra => extra
  | malformed _ extra => extra

section Head

variable (lead : UInt8) (rest : List UInt8)

@[simp] theorem isSecond_feed : isSecond lead 0x0A = false := by
  have h : ¬ isSecond lead 0x0A = true := by simp [isSecond_iff]
  simpa using h

@[simp] theorem isSecond_return : isSecond lead 0x0D = false := by
  have h : ¬ isSecond lead 0x0D = true := by simp [isSecond_iff]
  simpa using h

@[simp] theorem isContinuation_feed : isContinuation 0x0A = false := rfl

@[simp] theorem isContinuation_return : isContinuation 0x0D = false := rfl

theorem headOfTwo_withReturns : headOfTwo lead (withReturns rest) = headOfTwo lead rest := by
  cases rest with
  | nil => rfl
  | cons b rest =>
      by_cases hb : b = 0x0A
      · simp [hb, headOfTwo]
      · rw [withReturns_cons hb]
        rfl

theorem headOfThree_withReturns : headOfThree lead (withReturns rest) = headOfThree lead rest := by
  cases rest with
  | nil => rfl
  | cons b rest =>
      by_cases hb : b = 0x0A
      · simp [hb, headOfThree]
      · rw [withReturns_cons hb]
        cases rest with
        | nil => rfl
        | cons c rest =>
            by_cases hc : c = 0x0A
            · simp [hc, headOfThree]
            · rw [withReturns_cons hc]
              rfl

theorem headOfFour_withReturns : headOfFour lead (withReturns rest) = headOfFour lead rest := by
  cases rest with
  | nil => rfl
  | cons b rest =>
      by_cases hb : b = 0x0A
      · simp [hb, headOfFour]
      · rw [withReturns_cons hb]
        cases rest with
        | nil => rfl
        | cons c rest =>
            by_cases hc : c = 0x0A
            · simp [hc, headOfFour]
            · rw [withReturns_cons hc]
              cases rest with
              | nil => rfl
              | cons d rest =>
                  by_cases hd : d = 0x0A
                  · simp [hd, headOfFour]
                  · rw [withReturns_cons hd]
                    rfl

/-- A head is the same in front of either line break. -/
theorem head_withReturns : head lead (withReturns rest) = head lead rest := by
  unfold head
  rw [headOfTwo_withReturns, headOfThree_withReturns, headOfFour_withReturns]

variable {lead} in
theorem feed_ne_of_isSecond {b : UInt8} (h : isSecond lead b = true) : 0x0A ≠ b := by
  rintro rfl
  rw [isSecond_feed] at h
  cases h

theorem feed_ne_of_isContinuation {b : UInt8} (h : isContinuation b = true) : 0x0A ≠ b := by
  rintro rfl
  cases h

theorem feed_not_mem_headOfTwo : 0x0A ∉ rest.take (headOfTwo lead rest).extra := by
  cases rest with
  | nil => simp
  | cons b rest =>
      by_cases hb : isSecond lead b = true
      · simp [headOfTwo, hb, Head.extra, feed_ne_of_isSecond hb]
      · simp [headOfTwo, hb, Head.extra]

theorem feed_not_mem_headOfThree : 0x0A ∉ rest.take (headOfThree lead rest).extra := by
  cases rest with
  | nil => simp
  | cons b rest =>
      by_cases hb : isSecond lead b = true
      · have hfeed := feed_ne_of_isSecond hb
        cases rest with
        | nil => simp [headOfThree, hb, Head.extra, hfeed]
        | cons c rest =>
            by_cases hc : isContinuation c = true
            · simp [headOfThree, hb, hc, Head.extra, hfeed, feed_ne_of_isContinuation hc]
            · simp [headOfThree, hb, hc, Head.extra, hfeed]
      · simp [headOfThree, hb, Head.extra]

theorem feed_not_mem_headOfFour : 0x0A ∉ rest.take (headOfFour lead rest).extra := by
  cases rest with
  | nil => simp
  | cons b rest =>
      by_cases hb : isSecond lead b = true
      · have hsecond := feed_ne_of_isSecond hb
        cases rest with
        | nil => simp [headOfFour, hb, Head.extra, hsecond]
        | cons c rest =>
            by_cases hc : isContinuation c = true
            · have hthird := feed_ne_of_isContinuation hc
              cases rest with
              | nil => simp [headOfFour, hb, hc, Head.extra, hsecond, hthird]
              | cons d rest =>
                  by_cases hd : isContinuation d = true
                  · simp [headOfFour, hb, hc, hd, Head.extra, hsecond, hthird,
                      feed_ne_of_isContinuation hd]
                  · simp [headOfFour, hb, hc, hd, Head.extra, hsecond, hthird]
            · simp [headOfFour, hb, hc, Head.extra, hsecond]
      · simp [headOfFour, hb, Head.extra]

/-- No line feed belongs to a head behind its first byte. -/
theorem feed_not_mem_head : 0x0A ∉ rest.take (head lead rest).extra := by
  unfold head
  split
  · simp [Head.extra]
  · split
    · simp [Head.extra]
    · split
      · exact feed_not_mem_headOfTwo lead rest
      · split
        · exact feed_not_mem_headOfThree lead rest
        · split
          · exact feed_not_mem_headOfFour lead rest
          · simp [Head.extra]

end Head

/-! ## Reading -/

variable {lead : UInt8} {rest bytes : List UInt8} {c : Char} {extra : Nat}

theorem feed_iff_of_head (h : head lead rest = .char c extra) : c = '\n' ↔ lead = 0x0A := by
  constructor
  · rintro rfl
    obtain ⟨tail, -, hchar⟩ := encodeChar_of_head h
    exact (List.cons.inj hchar).1.symm
  · rintro rfl
    cases h
    rfl

theorem feed_ne_of_malformed {fault : Fault} (h : head lead rest = .malformed fault extra) :
    lead ≠ 0x0A := by
  rintro rfl
  cases h

theorem decodeReplacing_of_char (h : head lead rest = .char c extra) :
    decodeReplacing (lead :: rest) = c :: decodeReplacing (rest.drop extra) := by
  rw [decodeReplacing, h]

theorem decodeReplacing_of_malformed {fault : Fault} (h : head lead rest = .malformed fault extra) :
    decodeReplacing (lead :: rest) = Char.ofNat 0xFFFD :: decodeReplacing (rest.drop extra) := by
  rw [decodeReplacing, h]

theorem drop_withReturns_head (h : (head lead rest).extra = extra) :
    (withReturns rest).drop extra = withReturns (rest.drop extra) :=
  drop_withReturns (h ▸ feed_not_mem_head lead rest)

/-- Returns in front of line feeds are read as returns in front of line feeds. -/
theorem decodeReplacing_withReturns (bytes : List UInt8) :
    decodeReplacing (withReturns bytes) = Text.withReturns (decodeReplacing bytes) := by
  induction bytes using decodeReplacing.induct with
  | case1 => simp [decodeReplacing, Text.withReturns]
  | case2 lead rest c extra hhead ih =>
      by_cases hlead : lead = 0x0A
      · subst hlead
        cases hhead
        have hreturn : head 0x0D (0x0A :: withReturns rest) = .char '\r' 0 := rfl
        have hfeed : ∀ rest, head 0x0A rest = .char '\n' 0 := fun _ => rfl
        rw [withReturns_feed, decodeReplacing_of_char hreturn, List.drop_zero,
          decodeReplacing_of_char (hfeed _), decodeReplacing_of_char (hfeed _),
          Text.withReturns_feed, ← ih]
        rfl
      · have hdrop : (withReturns rest).drop extra = withReturns (rest.drop extra) :=
          drop_withReturns_head (congrArg Head.extra hhead)
        have hc : c ≠ '\n' := fun hc => hlead ((feed_iff_of_head hhead).mp hc)
        rw [decodeReplacing_of_char hhead, Text.withReturns_cons hc, ← ih, ← hdrop,
          withReturns_cons hlead,
          decodeReplacing_of_char ((head_withReturns lead rest).trans hhead)]
  | case3 lead rest fault extra hhead ih =>
      have hdrop : (withReturns rest).drop extra = withReturns (rest.drop extra) :=
        drop_withReturns_head (congrArg Head.extra hhead)
      rw [decodeReplacing_of_malformed hhead, Text.withReturns_cons (by decide), ← ih, ← hdrop,
        withReturns_cons (feed_ne_of_malformed hhead),
        decodeReplacing_of_malformed ((head_withReturns lead rest).trans hhead)]

theorem count_feed_head {lead : UInt8} {rest : List UInt8} (h : (head lead rest).extra = extra) :
    rest.count 0x0A = (rest.drop extra).count 0x0A := by
  have hnone := List.count_eq_zero.mpr (feed_not_mem_head lead rest)
  rw [h] at hnone
  calc rest.count 0x0A = (rest.take extra ++ rest.drop extra).count 0x0A := by
        rw [List.take_append_drop]
    _ = (rest.drop extra).count 0x0A := by rw [List.count_append, hnone, Nat.zero_add]

/-- A text has as many line feeds as its bytes. -/
theorem count_decodeReplacing (bytes : List UInt8) :
    (decodeReplacing bytes).count '\n' = bytes.count 0x0A := by
  induction bytes using decodeReplacing.induct with
  | case1 => simp [decodeReplacing]
  | case2 lead rest c extra hhead ih =>
      have hrest : rest.count 0x0A = (rest.drop extra).count 0x0A :=
        count_feed_head (congrArg Head.extra hhead)
      rw [decodeReplacing_of_char hhead, List.count_cons, List.count_cons, ih, hrest]
      simp only [beq_iff_eq, feed_iff_of_head hhead]
  | case3 lead rest fault extra hhead ih =>
      have hrest : rest.count 0x0A = (rest.drop extra).count 0x0A :=
        count_feed_head (congrArg Head.extra hhead)
      rw [decodeReplacing_of_malformed hhead, List.count_cons_of_ne (by decide), ih,
        List.count_cons_of_ne (feed_ne_of_malformed hhead), hrest]

/-- Bytes without a return are read as a text without one. -/
theorem return_not_mem_decodeReplacing (h : 0x0D ∉ bytes) : '\r' ∉ decodeReplacing bytes := by
  intro hmem
  obtain ⟨front, back, hsplit⟩ := List.append_of_mem hmem
  have hpart : ['\r'] <:+: decodeReplacing bytes := ⟨front, back, by simp [hsplit]⟩
  obtain ⟨first, last, hbytes⟩ := encode_isInfix (by decide) hpart
  exact h (by simp [← hbytes, encode, encodeChar, byte])

end Utf8

theorem translateNewlines_of_not_mem {text : List Char} (h : '\r' ∉ text) :
    translateNewlines text = text := by
  simpa [translateNewlines] using translateNewlines_append_of_not_mem h []

theorem translateNewlines_withReturns {text : List Char} (h : '\r' ∉ text) :
    translateNewlines (withReturns text) = text := by
  induction text with
  | nil => rfl
  | cons c text ih =>
      rw [List.mem_cons, not_or] at h
      by_cases hc : c = '\n'
      · subst hc
        rw [withReturns_feed, translateNewlines, ih h.2]
      · rw [withReturns_cons hc, translateNewlines_cons (Ne.symm h.1), ih h.2]

/-- A file without returns is read as the same text when every line feed gets one. -/
theorem read_withReturns {bytes : List UInt8} (h : 0x0D ∉ bytes) :
    translateNewlines (Utf8.decodeReplacing (Utf8.withReturns bytes)) =
      translateNewlines (Utf8.decodeReplacing bytes) := by
  have hnone := Utf8.return_not_mem_decodeReplacing h
  rw [Utf8.decodeReplacing_withReturns, translateNewlines_withReturns hnone,
    translateNewlines_of_not_mem hnone]

/-- A file without returns gets one byte for every line but the last. -/
theorem length_withReturns {bytes : List UInt8} (h : 0x0D ∉ bytes) :
    (Utf8.withReturns bytes).length = bytes.length +
      (lineCount (translateNewlines (Utf8.decodeReplacing bytes)) - 1) := by
  have hnone := Utf8.return_not_mem_decodeReplacing h
  rw [Utf8.length_withReturns, translateNewlines_of_not_mem hnone, lineCount,
    Utf8.count_decodeReplacing, Nat.add_sub_cancel]

end SourceAtlas.Text
