import SourceAtlas.Proofs.Import.Script

/-!
# Imports with bindings

A rule for scripts goes on behind `import` and white space. The rule with bindings reads at most one
word, one pair of braces or one namespace there, then `from` and a module, with white space between.
-/

namespace SourceAtlas.ImportRule

open Pattern Text

variable {gap space text word name target rest module after : List Char} {c mark : Char}

/-! ## Behind the bindings -/

/-- `from`, white space and a module. -/
def ReadsFrom (target rest text : List Char) : Prop :=
  (Pattern.text "from").Allows text fun behind => blanks.Allows behind (Quotes quote target rest)

/-- White space, `from` and a module. -/
def ReadsSource (target rest text : List Char) : Prop := blanks.Allows text (ReadsFrom target rest)

theorem ReadsFrom.head (h : ReadsFrom target rest (c :: text)) : c = 'f' :=
  head_of_allows_text rfl h

theorem ReadsFrom.isBlank (h : ReadsFrom target rest (c :: text)) : isBlank c = false := by
  rw [h.head]
  decide

theorem readsFrom_word (hword : ∀ c ∈ word, isWord c = true) (hgap : ∀ c ∈ gap, isBlank c = true)
    (hstops : Stops isWord (gap ++ text)) (htext : Stops isBlank text) :
    ReadsFrom target rest (word ++ (gap ++ text)) ↔
      word = "from".toList ∧ gap ≠ [] ∧ Quotes quote target rest text :=
  allows_keyword (by decide) hword hgap hstops htext fun _ _ h => isBlank_of_isQuote h.isQuote

theorem readsSource_append (hgap : ∀ c ∈ gap, isBlank c = true) (htext : Stops isBlank text) :
    ReadsSource target rest (gap ++ text) ↔ gap ≠ [] ∧ ReadsFrom target rest text :=
  allows_blanks_append hgap htext fun _ _ h => h.isBlank

theorem ReadsSource.stops (h : ReadsSource target rest text) : Stops isWord text :=
  stops_of_allows_blanks h

/-! ## Bindings -/

/-- Braces, a namespace or one name, and then the source. -/
def ReadsBinding (target rest text : List Char) : Prop :=
  (either (Pattern.text "\x7b" ++ run (· != '\x7d') ++ Pattern.text "\x7d")
    (either (Pattern.text "*" ++ blanks ++ Pattern.text "as" ++ blanks ++ ImportRule.word)
      ImportRule.word)).Allows text (ReadsSource target rest)

/-- Perhaps `type` and white space, and then a binding. -/
def ReadsBindings (target rest text : List Char) : Prop :=
  (optional (Pattern.text "type" ++ blanks)).Allows text (ReadsBinding target rest)

theorem mem_bindingImport : (target, rest) ∈ bindingImport.matchesAt text ↔
    (Pattern.text "import").Allows text fun behind =>
      blanks.Allows behind (ReadsBindings target rest) := by
  rw [mem_matchesAt]
  have hlead : ∀ next, bindingImport.lead.Allows text next ↔
      (Pattern.text "import").Allows text fun behind => blanks.Allows behind fun behind =>
        (optional (Pattern.text "type" ++ blanks)).Allows behind fun behind =>
          (either (Pattern.text "\x7b" ++ run (· != '\x7d') ++ Pattern.text "\x7d")
            (either (Pattern.text "*" ++ blanks ++ Pattern.text "as" ++ blanks ++ ImportRule.word)
              ImportRule.word)).Allows behind fun behind => blanks.Allows behind fun behind =>
            (Pattern.text "from").Allows behind fun behind => blanks.Allows behind fun behind =>
              quote.Allows behind next := by
    intro next
    unfold bindingImport
    dsimp only
    rw [allows_seq, allows_seq, allows_seq, allows_seq, allows_seq, allows_seq, allows_seq]
  rw [hlead]
  rfl

theorem readsBinding_iff : ReadsBinding target rest text ↔
    ((Pattern.text "\x7b").Allows text fun behind => (run (· != '\x7d')).Allows behind fun behind =>
      (Pattern.text "\x7d").Allows behind (ReadsSource target rest)) ∨
    ((Pattern.text "*").Allows text fun behind => blanks.Allows behind fun behind =>
      (Pattern.text "as").Allows behind fun behind => blanks.Allows behind fun behind =>
        ImportRule.word.Allows behind (ReadsSource target rest)) ∨
    ImportRule.word.Allows text (ReadsSource target rest) := by
  unfold ReadsBinding
  rw [allows_either, allows_either, allows_seq, allows_seq, allows_seq, allows_seq, allows_seq,
    allows_seq]

theorem isWord_of_allows_word {next : List Char → Prop}
    (h : ImportRule.word.Allows (c :: text) next) : isWord c = true := accepts_of_allows_run1 h

theorem allows_word_append (hname : ∀ c ∈ name, isWord c = true) (hne : name ≠ [])
    (hstops : Stops isWord text) :
    ImportRule.word.Allows (name ++ text) (ReadsSource target rest) ↔ ReadsSource target rest text :=
  (allows_run1_append hname hstops fun _ _ h => stops_cons.mp h.stops).trans (and_iff_right hne)

/-- A binding starts with a brace, a star or a word. -/
theorem ReadsBinding.head (h : ReadsBinding target rest (c :: text)) :
    c = '\x7b' ∨ c = '*' ∨ isWord c = true := by
  rcases readsBinding_iff.mp h with hbraces | hstar | hword
  · exact .inl (head_of_allows_text rfl hbraces)
  · exact .inr (.inl (head_of_allows_text rfl hstar))
  · exact .inr (.inr (isWord_of_allows_word hword))

theorem readsBinding_word (hname : ∀ c ∈ name, isWord c = true) (hne : name ≠ [])
    (hstops : Stops isWord text) :
    ReadsBinding target rest (name ++ text) ↔ ReadsSource target rest text := by
  rw [readsBinding_iff, allows_word_append hname hne hstops]
  obtain ⟨c, more, rfl⟩ := List.exists_cons_of_ne_nil hne
  have hc := hname c List.mem_cons_self
  refine ⟨?_, fun h => .inr (.inr h)⟩
  rintro (hbraces | hstar | hsource)
  · rw [head_of_allows_text rfl hbraces] at hc
    exact absurd hc (by decide)
  · rw [head_of_allows_text rfl hstar] at hc
    exact absurd hc (by decide)
  · exact hsource

theorem readsBinding_braces {inner : List Char} (hinner : ∀ c ∈ inner, (c != '\x7d') = true) :
    ReadsBinding target rest ('\x7b' :: (inner ++ '\x7d' :: text)) ↔
      ReadsSource target rest text := by
  have hnext : ∀ c behind, (Pattern.text "\x7d").Allows (c :: behind) (ReadsSource target rest) →
      (c != '\x7d') = false := fun c behind h => by
    rw [head_of_allows_text rfl h]
    rfl
  rw [readsBinding_iff, allows_sign rfl, allows_run_append hinner (stops_cons.mpr rfl) hnext,
    allows_sign rfl]
  refine ⟨?_, .inl⟩
  rintro (hsource | hstar | hword)
  · exact hsource
  · exact absurd (head_of_allows_text rfl hstar) (by decide)
  · exact absurd (isWord_of_allows_word hword) (by decide)

theorem readsBinding_star (hgap : ∀ c ∈ gap, isBlank c = true) (hspace : ∀ c ∈ space, isBlank c = true)
    (hne : space ≠ []) (hname : ∀ c ∈ name, isWord c = true) (hnamed : name ≠ [])
    (hstops : Stops isWord text) :
    ReadsBinding target rest ('*' :: (gap ++ ("as".toList ++ (space ++ (name ++ text))))) ↔
      gap ≠ [] ∧ ReadsSource target rest text := by
  have hstopsAs : Stops isBlank ("as".toList ++ (space ++ (name ++ text))) :=
    stops_cons.mpr (by decide)
  have hnext : ∀ c behind, (Pattern.text "as").Allows (c :: behind) (fun behind =>
      blanks.Allows behind fun behind => ImportRule.word.Allows behind (ReadsSource target rest)) →
      isBlank c = false := fun c behind h => by
    rw [head_of_allows_text rfl h]
    decide
  have hword : ∀ c behind, ImportRule.word.Allows (c :: behind) (ReadsSource target rest) →
      isBlank c = false := fun c behind h => isBlank_of_isWord (isWord_of_allows_word h)
  have hstar : "*".toList = ['*'] := rfl
  rw [readsBinding_iff, allows_sign hstar, allows_blanks_append hgap hstopsAs hnext,
    allows_keyword (by decide) (by decide) hspace (stops_isWord_space hspace hne _)
      (stops_isBlank_word hname hnamed _) hword, allows_word_append hname hnamed hstops]
  constructor
  · rintro (hbraces | ⟨hgapped, -, -, hsource⟩ | hword)
    · exact absurd (head_of_allows_text rfl hbraces) (by decide)
    · exact ⟨hgapped, hsource⟩
    · exact absurd (isWord_of_allows_word hword) (by decide)
  · exact fun ⟨hgapped, hsource⟩ => .inr (.inl ⟨hgapped, rfl, hne, hsource⟩)

/-! ## Bindings of types -/

theorem readsBindings_iff : ReadsBindings target rest text ↔
    ((Pattern.text "type").Allows text fun behind =>
      blanks.Allows behind (ReadsBinding target rest)) ∨ ReadsBinding target rest text := by
  unfold ReadsBindings
  rw [allows_optional, allows_seq]

theorem ReadsBindings.head (h : ReadsBindings target rest (c :: text)) :
    c = '\x7b' ∨ c = '*' ∨ isWord c = true := by
  rcases readsBindings_iff.mp h with htype | hbinding
  · rw [head_of_allows_text rfl htype]
    exact .inr (.inr (by decide))
  · exact hbinding.head

theorem readsBindings_of_ne (hc : c ≠ 't') :
    ReadsBindings target rest (c :: text) ↔ ReadsBinding target rest (c :: text) := by
  rw [readsBindings_iff]
  exact or_iff_right fun htype => hc (head_of_allows_text rfl htype)

/-- A word is `type` in front of a binding, or a name in front of the source. -/
theorem readsBindings_word (hname : ∀ c ∈ name, isWord c = true) (hne : name ≠ [])
    (hgap : ∀ c ∈ gap, isBlank c = true) (hstops : Stops isWord (gap ++ text))
    (htext : Stops isBlank text) :
    ReadsBindings target rest (name ++ (gap ++ text)) ↔ gap ≠ [] ∧
      ((name = "type".toList ∧ ReadsBinding target rest text) ∨ ReadsFrom target rest text) := by
  have hnext : ∀ c behind, ReadsBinding target rest (c :: behind) → isBlank c = false := by
    intro c behind h
    rcases h.head with rfl | rfl | hword
    · decide
    · decide
    · exact isBlank_of_isWord hword
  rw [readsBindings_iff, readsBinding_word hname hne hstops, readsSource_append hgap htext,
    allows_keyword (by decide) hname hgap hstops htext hnext, and_left_comm, ← and_or_left]

end SourceAtlas.ImportRule
