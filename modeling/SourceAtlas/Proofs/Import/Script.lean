import SourceAtlas.Proofs.Import.Matching

/-!
# Import rules of scripts

What the import rules for scripts make of the words, gaps, braces and quotes behind `import`. A word
is read as a whole, and only in front of white space; so is a gap.
-/

namespace SourceAtlas

namespace Text

variable {gap text : List Char} {c : Char}

theorem mem_blankRanges_of_isBlank (h : isBlank c = true) :
    ∃ range ∈ blankRanges, range.1 ≤ c.toNat ∧ c.toNat ≤ range.2 := by
  unfold isBlank at h
  split at h
  · simp only [Bool.or_eq_true, Bool.and_eq_true, decide_eq_true_eq] at h
    rcases h with hcontrol | hspace
    · exact ⟨(9, 13), by decide, hcontrol⟩
    · exact ⟨(28, 32), by decide, hspace⟩
  · exact (CharRanges.contains_iff _ _).mp h

/-- White space is no part of a word. -/
theorem isWord_of_isBlank (h : isBlank c = true) : isWord c = false := by
  have hall : ∀ range ∈ blankRanges, ∀ n ∈ List.range' range.1 (range.2 + 1 - range.1),
      isWord (Char.ofNat n) = false := by decide +kernel
  obtain ⟨range, hrange, hfirst, hlast⟩ := mem_blankRanges_of_isBlank h
  have hmem : c.toNat ∈ List.range' range.1 (range.2 + 1 - range.1) := by
    rw [List.mem_range'_1]
    omega
  have hword := hall range hrange c.toNat hmem
  rwa [Char.ofNat_toNat] at hword

theorem isBlank_of_isWord (h : isWord c = true) : isBlank c = false :=
  disjoint_symm (fun _ => isWord_of_isBlank) c h

/-- In front of a gap a word has come to its end, if it has in front of what comes behind. -/
theorem stops_isWord_gap (hgap : ∀ c ∈ gap, isBlank c = true) (h : Stops isWord text) :
    Stops isWord (gap ++ text) := by
  cases gap with
  | nil => exact h
  | cons c gap => exact stops_cons.mpr (isWord_of_isBlank (hgap c List.mem_cons_self))

theorem stops_isWord_space (hgap : ∀ c ∈ gap, isBlank c = true) (hne : gap ≠ []) (text : List Char) :
    Stops isWord (gap ++ text) := by
  obtain ⟨c, rest, rfl⟩ := List.exists_cons_of_ne_nil hne
  exact stops_cons.mpr (isWord_of_isBlank (hgap c List.mem_cons_self))

theorem stops_isBlank_word {word : List Char} (hword : ∀ c ∈ word, isWord c = true)
    (hne : word ≠ []) (text : List Char) : Stops isBlank (word ++ text) := by
  obtain ⟨c, rest, rfl⟩ := List.exists_cons_of_ne_nil hne
  exact stops_cons.mpr (isBlank_of_isWord (hword c List.mem_cons_self))

end Text

namespace ImportRule

open Pattern Text

variable {gap text word target rest : List Char} {next : List Char → Prop} {c mark : Char}

/-! ## Gaps and keywords -/

theorem allows_blanks_append (hgap : ∀ c ∈ gap, isBlank c = true) (htext : Stops isBlank text)
    (hnext : ∀ c rest, next (c :: rest) → isBlank c = false) :
    blanks.Allows (gap ++ text) next ↔ gap ≠ [] ∧ next text :=
  allows_run1_append hgap htext hnext

theorem isBlank_of_allows_blanks (h : blanks.Allows (c :: text) next) : isBlank c = true :=
  accepts_of_allows_run1 h

theorem stops_of_allows_blanks (h : blanks.Allows text next) : Stops isWord text := by
  cases text with
  | nil => exact stops_nil
  | cons c text => exact stops_cons.mpr (isWord_of_isBlank (isBlank_of_allows_blanks h))

/-- A keyword with white space behind it is a whole word of the text. -/
theorem allows_keyword {keyword : String} (hkeyword : ∀ c ∈ keyword.toList, isWord c = true)
    (hword : ∀ c ∈ word, isWord c = true) (hgap : ∀ c ∈ gap, isBlank c = true)
    (hstops : Stops isWord (gap ++ text)) (htext : Stops isBlank text)
    (hnext : ∀ c rest, next (c :: rest) → isBlank c = false) :
    ((Pattern.text keyword).Allows (word ++ (gap ++ text)) fun behind => blanks.Allows behind next) ↔
      word = keyword.toList ∧ gap ≠ [] ∧ next text := by
  rw [← allows_blanks_append hgap htext hnext]
  constructor
  · intro h
    obtain ⟨behind, hsplit, hblanks⟩ := allows_literal.mp h
    obtain ⟨rfl, rfl⟩ :=
      append_inj_of_stops hsplit hword hkeyword hstops (stops_of_allows_blanks hblanks)
    exact ⟨rfl, hblanks⟩
  · rintro ⟨rfl, hblanks⟩
    exact (allows_literal_append _).mpr hblanks

theorem head_of_allows_text {keyword : String} {first : Char} {more : List Char}
    (hkeyword : keyword.toList = first :: more)
    (h : (Pattern.text keyword).Allows (c :: text) next) : c = first := by
  obtain ⟨behind, hsplit, -⟩ := allows_literal.mp h
  rw [hkeyword] at hsplit
  exact (List.cons.inj hsplit).1

theorem allows_sign {sign : String} (hsign : sign.toList = [c]) :
    (Pattern.text sign).Allows (c :: text) next ↔ next text := by
  have happend : c :: text = sign.toList ++ text := by rw [hsign, List.singleton_append]
  rw [happend]
  exact allows_literal_append _

/-! ## Modules in quotes -/

/-- A quote, a target, and what the tail of a rule allows behind it. -/
def Quotes (tail : Pattern) (target rest text : List Char) : Prop :=
  quote.Allows text fun atTarget => unquoted.Allows atTarget fun behind =>
    consumed atTarget behind = target ∧ tail.Allows behind (· = rest)

theorem isQuote_of_allows_quote (h : quote.Allows (c :: text) next) : isQuote c = true :=
  accepts_of_allows_one h

theorem isBlank_of_isQuote (h : isQuote c = true) : isBlank c = false := by
  unfold isQuote at h
  rw [Bool.or_eq_true, beq_iff_eq, beq_iff_eq] at h
  rcases h with rfl | rfl <;> decide

theorem isWord_of_isQuote (h : isQuote c = true) : isWord c = false := by
  unfold isQuote at h
  rw [Bool.or_eq_true, beq_iff_eq, beq_iff_eq] at h
  rcases h with rfl | rfl <;> decide

theorem isQuote_of_isWord (h : isWord c = true) : isQuote c = false :=
  disjoint_symm (fun _ => isWord_of_isQuote) c h

theorem isQuote_of_isBlank (h : isBlank c = true) : isQuote c = false :=
  disjoint_symm (fun _ => isBlank_of_isQuote) c h

theorem allows_quote_cons (hmark : isQuote mark = true) :
    quote.Allows (mark :: text) next ↔ next text := by
  have hone : quote.Allows (mark :: text) next ↔
      ∃ c rest, mark :: text = c :: rest ∧ isQuote c = true ∧ next rest := allows_one
  rw [hone]
  constructor
  · rintro ⟨c, behind, hsplit, -, hnext⟩
    obtain ⟨-, rfl⟩ := List.cons.inj hsplit
    exact hnext
  · exact fun hnext => ⟨mark, text, rfl, hmark, hnext⟩

/-- Between quotes, everything up to the closing one is the target. -/
theorem quotes_cons {tail : Pattern} {name close : List Char} (hmark : isQuote mark = true)
    (hname : ∀ c ∈ name, isQuote c = false) (hclose : Stops (fun c => !isQuote c) close)
    (htail : ∀ c text, tail.Allows (c :: text) (· = rest) → isQuote c = true) :
    Quotes tail target rest (mark :: (name ++ close)) ↔
      name ≠ [] ∧ name = target ∧ tail.Allows close (· = rest) := by
  have hnext : ∀ c text, consumed (name ++ close) (c :: text) = target ∧
      tail.Allows (c :: text) (· = rest) → (!isQuote c) = false := by
    rintro c text ⟨-, h⟩
    rw [htail c text h]
    rfl
  have hplain : ∀ c ∈ name, (!isQuote c) = true := fun c hc => by
    rw [hname c hc]
    rfl
  have hall : unquoted.Allows (name ++ close) (fun behind =>
      consumed (name ++ close) behind = target ∧ tail.Allows behind (· = rest)) ↔ _ :=
    allows_run1_append hplain hclose hnext
  unfold Quotes
  rw [allows_quote_cons hmark, hall, consumed_append]

theorem not_quotes_nil {tail : Pattern} : ¬ Quotes tail target rest [] := not_allows_one_nil

theorem Quotes.isQuote {tail : Pattern} (h : Quotes tail target rest (c :: text)) :
    isQuote c = true := isQuote_of_allows_quote h

/-- A module between its quotes. -/
theorem quotes_module {name after : List Char} {close : Char} (hmark : isQuote mark = true)
    (hclose : isQuote close = true) (hname : ∀ c ∈ name, isQuote c = false) (hne : name ≠ []) :
    Quotes quote target rest (mark :: (name ++ close :: after)) ↔ name = target ∧ after = rest := by
  have hstops : Stops (fun c => !isQuote c) (close :: after) := by
    rw [stops_cons, hclose]
    rfl
  rw [quotes_cons hmark hname hstops fun c text => isQuote_of_allows_quote,
    allows_quote_cons hclose]
  exact and_iff_right hne

end ImportRule

end SourceAtlas
