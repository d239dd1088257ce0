import SourceAtlas.Proofs.Import.Binding

/-!
# Where no import starts

Both rules for import declarations go on behind `import` and white space. So a match starts only at
a word that ends in `import`; in a declaration such a word is followed by what no match goes on with.
-/

namespace SourceAtlas.ImportRule

open Pattern Text

variable {rule : ImportRule} {next : List Char → List Char → List Char → Prop}
  {gap text word front back target rest : List Char} {c mark : Char}

/-- The rule goes on behind `import` and white space, but not with a comma, a closing brace or
`from`. -/
structure Continues (rule : ImportRule) (next : List Char → List Char → List Char → Prop) :
    Prop where
  isFree : rule.IsFree
  mem_iff : ∀ {target rest text}, (target, rest) ∈ rule.matchesAt text ↔
    (Pattern.text "import").Allows text fun behind => blanks.Allows behind (next target rest)
  start : ∀ {target rest c text}, next target rest (c :: text) → isBlank c = false
  sign : ∀ {target rest c text}, c = ',' ∨ c = '\x7d' → ¬ next target rest (c :: text)
  source : ∀ {target rest gap mark text}, (∀ c ∈ gap, isBlank c = true) → isQuote mark = true →
    ¬ next target rest ("from".toList ++ (gap ++ mark :: text))

/-! ## The two rules -/

theorem continues_bare : Continues bareImport (Quotes quote) where
  isFree := isFree_of_leading rfl (by decide)
  mem_iff := by
    intro target rest text
    have hlead : ∀ next, bareImport.lead.Allows text next ↔
        (Pattern.text "import").Allows text fun behind => blanks.Allows behind fun behind =>
          quote.Allows behind next := by
      intro next
      unfold bareImport
      dsimp only
      rw [allows_seq, allows_seq]
    rw [mem_matchesAt, hlead]
    rfl
  start h := isBlank_of_isQuote h.isQuote
  sign := by
    rintro target rest c text (rfl | rfl) h
    · exact absurd h.isQuote (by decide)
    · exact absurd h.isQuote (by decide)
  source := fun _ _ h => absurd (Quotes.isQuote h) (by decide)

theorem continues_binding : Continues bindingImport ReadsBindings where
  isFree := isFree_of_leading rfl (by decide)
  mem_iff := mem_bindingImport
  start h := by
    rcases h.head with rfl | rfl | hword
    · decide
    · decide
    · exact isBlank_of_isWord hword
  sign := by
    rintro target rest c text (rfl | rfl) h
    · exact absurd h.head (by decide)
    · exact absurd h.head (by decide)
  source := by
    intro target rest gap mark text hgap hmark h
    have hstops : Stops isBlank (mark :: text) := stops_cons.mpr (isBlank_of_isQuote hmark)
    have hmarkWord := isWord_of_isQuote hmark
    obtain ⟨-, ⟨htype, -⟩ | hfrom⟩ := (readsBindings_word (by decide) (by decide) hgap
      (stops_isWord_gap hgap (stops_cons.mpr hmarkWord)) hstops).mp h
    · exact absurd htype (by decide)
    · rw [hfrom.head] at hmark
      exact absurd hmark (by decide)

/-! ## Silence -/

namespace Continues

theorem quiet_of_not_mem (h : Continues rule next) (hfront : 'i' ∉ front) :
    rule.Quiet front back := by
  refine quiet_of_suffix fun part hne hpart target rest hfound => ?_
  obtain ⟨c, more, rfl⟩ := List.exists_cons_of_ne_nil hne
  have hc : c = 'i' := head_of_allows_text rfl (h.mem_iff.mp hfound)
  exact hfront (hpart.subset (hc ▸ List.mem_cons_self))

theorem quiet_gap (h : Continues rule next) (hgap : ∀ c ∈ gap, isBlank c = true) :
    rule.Quiet gap back :=
  h.quiet_of_not_mem fun hmem => absurd (hgap _ hmem) (by decide)

/-- A match that starts at a word starts with the whole of it. -/
theorem mem_word_iff (h : Continues rule next) (hword : ∀ c ∈ word, isWord c = true)
    (hgap : ∀ c ∈ gap, isBlank c = true) (hstops : Stops isWord (gap ++ text))
    (htext : Stops isBlank text) :
    (target, rest) ∈ rule.matchesAt (word ++ (gap ++ text)) ↔
      word = "import".toList ∧ gap ≠ [] ∧ next target rest text :=
  h.mem_iff.trans (allows_keyword (by decide) hword hgap hstops htext fun _ _ => h.start)

theorem quiet_word (h : Continues rule next) (hword : ∀ c ∈ word, isWord c = true)
    (hgap : ∀ c ∈ gap, isBlank c = true) (hstops : Stops isWord (gap ++ text))
    (htext : Stops isBlank text)
    (hnone : ∀ target rest, gap ≠ [] → ¬ next target rest text) :
    rule.Quiet word (gap ++ text) := by
  refine quiet_of_suffix fun part _ hpart target rest hfound => ?_
  have hwords : ∀ c ∈ part, isWord c = true := fun c hc => hword c (hpart.subset hc)
  obtain ⟨-, hne, hnext⟩ := (h.mem_word_iff hwords hgap hstops htext).mp hfound
  exact hnone target rest hne hnext

/-- A name in front of a comma or a closing brace. -/
theorem quiet_name_sign (h : Continues rule next) (hword : ∀ c ∈ word, isWord c = true)
    (hgap : ∀ c ∈ gap, isBlank c = true) (hc : c = ',' ∨ c = '\x7d') :
    rule.Quiet word (gap ++ c :: text) := by
  have hword' : isWord c = false := by rcases hc with rfl | rfl <;> decide
  have hblank : isBlank c = false := by rcases hc with rfl | rfl <;> decide
  exact h.quiet_word hword hgap (stops_isWord_gap hgap (stops_cons.mpr hword'))
    (stops_cons.mpr hblank) fun _ _ _ => h.sign hc

/-- A name in front of the source. -/
theorem quiet_name_source (h : Continues rule next) {space : List Char}
    (hword : ∀ c ∈ word, isWord c = true) (hspace : ∀ c ∈ space, isBlank c = true)
    (hne : space ≠ []) (hgap : ∀ c ∈ gap, isBlank c = true) (hmark : isQuote mark = true) :
    rule.Quiet word (space ++ ("from".toList ++ (gap ++ mark :: text))) :=
  h.quiet_word hword hspace (stops_isWord_space hspace hne _)
    (stops_isBlank_word (by decide) (by decide) _) fun _ _ _ => h.source hgap hmark

/-- In a module no white space follows `import`. -/
theorem quiet_module (h : Continues rule next) (hfront : ∀ c ∈ front, isBlank c = false)
    (hmark : isQuote mark = true) : rule.Quiet front (mark :: text) := by
  refine quiet_of_suffix fun part _ hpart target rest hfound => ?_
  obtain ⟨behind, hsplit, hblanks⟩ := allows_literal.mp (h.mem_iff.mp hfound)
  have hkeyword : mark ∉ "import".toList := fun hmem => by
    have hplain : ∀ c ∈ "import".toList, isQuote c = false := by decide
    rw [hplain mark hmem] at hmark
    cases hmark
  have hsolid : ∀ c ∈ part ++ [mark], isBlank c = false :=
    List.forall_mem_append.mpr ⟨fun c hc => hfront c (hpart.subset hc),
      List.forall_mem_singleton.mpr (isBlank_of_isQuote hmark)⟩
  -- the quote is behind the keyword, so the white space would have to be in front of the quote
  rw [List.append_cons, List.append_eq_append_iff] at hsplit
  rcases hsplit with ⟨more, hshort, -⟩ | ⟨more, hlong, rfl⟩
  · exact hkeyword (by simp [hshort])
  · cases more with
    | nil =>
        rw [List.append_nil] at hlong
        exact hkeyword (hlong ▸ by simp)
    | cons first more =>
        have hblank := isBlank_of_allows_blanks hblanks
        rw [hsolid first (by simp [hlong])] at hblank
        cases hblank

end Continues

end SourceAtlas.ImportRule
