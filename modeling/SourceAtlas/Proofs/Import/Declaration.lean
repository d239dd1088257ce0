import SourceAtlas.Proofs.Import.Silence

/-!
# Import declarations

The forms of an import declaration of a script, with white space wherever the language allows it.
The rules ask for white space at places where it need not stand, and know no default name beside
other bindings; the declarations that they do find are told by their headers.
-/

namespace SourceAtlas.Script

open Text ImportRule

/-! ## Parts of a declaration -/

/-- White space or nothing. -/
structure Gap where
  text : List Char
  blank : ∀ c ∈ text, isBlank c = true

/-- White space. -/
structure Space extends Gap where
  ne_nil : text ≠ []

/-- A name. -/
structure Name where
  text : List Char
  word : ∀ c ∈ text, isWord c = true
  ne_nil : text ≠ []

/-- The mark in front of a specifier and behind it. -/
structure Mark where
  char : Char
  quote : isQuote char = true

/-- The specifier of a module. -/
structure Specifier where
  text : List Char
  plain : ∀ c ∈ text, isQuote c = false
  solid : ∀ c ∈ text, isBlank c = false
  ne_nil : text ≠ []

/-- A name in braces. -/
structure Member where
  before : Gap
  name : Name
  after : Gap

/-- Bindings that are no default name. -/
inductive Bindings
  /-- Names in braces. -/
  | braces (members : List Member) (after : Gap)
  /-- `* as` and a name. -/
  | all (star : Gap) (space : Space) (name : Name) (after : Space)

/-- What stands in front of the specifier. -/
inductive Header
  /-- No bindings. -/
  | bare (gap : Gap)
  /-- A default name, perhaps behind `type`. -/
  | one (before : Space) (type? : Option Space) (name : Name) (after : Space) (gap : Gap)
  /-- Other bindings. -/
  | group (before : Gap) (bindings : Bindings) (gap : Gap)
  /-- Other bindings behind `type`. -/
  | types (before : Space) (inner : Gap) (bindings : Bindings) (gap : Gap)
  /-- A default name and other bindings. -/
  | oneAndGroup (before : Space) (name : Name) (comma inner : Gap) (bindings : Bindings) (gap : Gap)

/-- An import declaration. -/
structure Declaration where
  header : Header
  mark : Mark
  specifier : Specifier

/-! ## Texts -/

/-- A keyword and what stands behind it. -/
def keyword (word : String) (behind : List Char) : List Char := word.toList ++ behind

def Member.text (member : Member) : List Char :=
  member.before.text ++ (member.name.text ++ member.after.text)

def Bindings.text : Bindings → List Char
  | braces members after =>
      '\x7b' :: (join ',' (members.map Member.text) ++ '\x7d' :: after.text)
  | all star space name after =>
      '*' :: (star.text ++ keyword "as" (space.text ++ (name.text ++ after.text)))

namespace Header

/-- What stands right behind `import`. -/
def gap : Header → Gap
  | bare gap => gap
  | group before _ _ => before
  | one before _ _ _ _ | types before _ _ _ | oneAndGroup before _ _ _ _ _ => before.toGap

def typeText : Option Space → List Char
  | none => []
  | some space => keyword "type" space.text

/-- What stands behind that, up to the specifier. -/
def body : Header → List Char
  | bare _ => []
  | one _ type? name after gap =>
      typeText type? ++ (name.text ++ (after.text ++ keyword "from" gap.text))
  | group _ bindings gap => bindings.text ++ keyword "from" gap.text
  | types _ inner bindings gap =>
      keyword "type" (inner.text ++ (bindings.text ++ keyword "from" gap.text))
  | oneAndGroup _ name comma inner bindings gap =>
      name.text ++ (comma.text ++ ',' ::
        (inner.text ++ (bindings.text ++ keyword "from" gap.text)))

def text (header : Header) : List Char := keyword "import" (header.gap.text ++ header.body)

end Header

def Declaration.text (declaration : Declaration) : List Char :=
  declaration.header.text ++
    declaration.mark.char :: (declaration.specifier.text ++ [declaration.mark.char])

/-! ## Characters -/

section Characters

variable {p : Char → Prop} (hword : ∀ c, isWord c = true → p c) (hblank : ∀ c, isBlank c = true → p c)
  (hsign : ∀ c ∈ ['\x7b', '\x7d', '*', ','], p c)

include hword in
theorem forall_mem_keyword {word : String} (hwords : ∀ c ∈ word.toList, isWord c = true)
    {behind : List Char} (hbehind : ∀ c ∈ behind, p c) : ∀ c ∈ keyword word behind, p c :=
  List.forall_mem_append.mpr ⟨fun c hc => hword c (hwords c hc), hbehind⟩

include hword hblank

theorem Member.forall_mem_text (member : Member) : ∀ c ∈ member.text, p c := by
  simp only [Member.text, List.forall_mem_append]
  exact ⟨fun c hc => hblank c (member.before.blank c hc),
    fun c hc => hword c (member.name.word c hc), fun c hc => hblank c (member.after.blank c hc)⟩

include hsign

theorem Bindings.forall_mem_text (bindings : Bindings) : ∀ c ∈ bindings.text, p c := by
  cases bindings with
  | braces members after =>
      have hmembers : ∀ c ∈ join ',' (members.map Member.text), p c :=
        forall_mem_join (hsign ',' (by decide))
          (List.forall_mem_map.mpr fun member _ => member.forall_mem_text hword hblank)
      simp only [Bindings.text, List.forall_mem_cons, List.forall_mem_append]
      exact ⟨hsign _ (by decide), hmembers, hsign _ (by decide),
        fun c hc => hblank c (after.blank c hc)⟩
  | all star space name after =>
      have hname : ∀ c ∈ space.text ++ (name.text ++ after.text), p c := by
        simp only [List.forall_mem_append]
        exact ⟨fun c hc => hblank c (space.blank c hc), fun c hc => hword c (name.word c hc),
          fun c hc => hblank c (after.blank c hc)⟩
      simp only [Bindings.text, List.forall_mem_cons, List.forall_mem_append]
      exact ⟨hsign _ (by decide), fun c hc => hblank c (star.blank c hc),
        forall_mem_keyword hword (by decide) hname⟩

/-- A header is written in words, white space, braces, stars and commas. -/
theorem Header.forall_mem_text (header : Header) : ∀ c ∈ header.text, p c := by
  have hgap : ∀ gap : Gap, ∀ c ∈ gap.text, p c := fun gap c hc => hblank c (gap.blank c hc)
  have hname : ∀ name : Name, ∀ c ∈ name.text, p c := fun name c hc => hword c (name.word c hc)
  have hsource : ∀ gap : Gap, ∀ c ∈ keyword "from" gap.text, p c := fun gap =>
    forall_mem_keyword hword (by decide) (hgap gap)
  have hbindings : ∀ bindings : Bindings, ∀ c ∈ bindings.text, p c := fun bindings =>
    bindings.forall_mem_text hword hblank hsign
  have hbody : ∀ c ∈ header.body, p c := by
    cases header with
    | bare gap => exact fun c hc => nomatch hc
    | one before type? name after gap =>
        have htype : ∀ c ∈ typeText type?, p c := by
          cases type? with
          | none => exact fun c hc => nomatch hc
          | some space => exact forall_mem_keyword hword (by decide) (hgap space.toGap)
        simp only [body, List.forall_mem_append]
        exact ⟨htype, hname name, hgap after.toGap, hsource gap⟩
    | group before bindings gap =>
        exact List.forall_mem_append.mpr ⟨hbindings bindings, hsource gap⟩
    | types before inner bindings gap =>
        refine forall_mem_keyword hword (by decide) ?_
        simp only [List.forall_mem_append]
        exact ⟨hgap inner, hbindings bindings, hsource gap⟩
    | oneAndGroup before name comma inner bindings gap =>
        simp only [body, List.forall_mem_append, List.forall_mem_cons]
        exact ⟨hname name, hgap comma, hsign _ (by decide), hgap inner, hbindings bindings,
          hsource gap⟩
  exact forall_mem_keyword hword (by decide)
    (List.forall_mem_append.mpr ⟨hgap header.gap, hbody⟩)

end Characters

theorem Header.isQuote_of_mem_text (header : Header) : ∀ c ∈ header.text, isQuote c = false :=
  header.forall_mem_text (fun _ => isQuote_of_isWord) (fun _ => isQuote_of_isBlank) (by decide)

theorem Header.parenthesis_not_mem_text (header : Header) : '(' ∉ header.text := by
  intro hmem
  refine header.forall_mem_text (p := (· ≠ '(')) ?_ ?_ (by decide) '(' hmem rfl
  · rintro c hc rfl
    exact absurd hc (by decide)
  · rintro c hc rfl
    exact absurd hc (by decide)

/-! ## The declarations that are found -/

/-- White space stands where the rules ask for it. -/
def Bindings.IsSpaced : Bindings → Prop
  | braces _ after => after.text ≠ []
  | all star _ _ _ => star.text ≠ []

namespace Header

/-- The header has no bindings. -/
def IsBare : Header → Prop
  | bare _ => True
  | _ => False

/-- White space stands where the rules ask for it, and there are no bindings beside a default
name. -/
def IsFound : Header → Prop
  | bare gap => gap.text ≠ []
  | one _ _ _ _ gap => gap.text ≠ []
  | group before bindings gap => before.text ≠ [] ∧ bindings.IsSpaced ∧ gap.text ≠ []
  | types _ inner bindings gap => inner.text ≠ [] ∧ bindings.IsSpaced ∧ gap.text ≠ []
  | oneAndGroup .. => False

end Header

variable {rule : ImportRule} {next : List Char → List Char → List Char → Prop}
  {target rest text : List Char}

theorem Gap.stops_isWord (gap : Gap) (h : Stops isWord text) : Stops isWord (gap.text ++ text) :=
  stops_isWord_gap gap.blank h

theorem Space.stops_isWord (space : Space) (text : List Char) :
    Stops isWord (space.text ++ text) :=
  stops_isWord_space space.blank space.ne_nil text

theorem Name.stops (name : Name) {accepts : Char → Bool}
    (h : ∀ c, isWord c = true → accepts c = false) (text : List Char) :
    Stops accepts (name.text ++ text) := by
  obtain ⟨c, more, hname⟩ := List.exists_cons_of_ne_nil name.ne_nil
  rw [hname]
  exact stops_cons.mpr (h c (name.word c (hname ▸ List.mem_cons_self)))

theorem Name.stops_isBlank (name : Name) (text : List Char) : Stops isBlank (name.text ++ text) :=
  name.stops (fun _ => isBlank_of_isWord) text

theorem Mark.stops_isBlank (mark : Mark) (text : List Char) : Stops isBlank (mark.char :: text) :=
  stops_cons.mpr (isBlank_of_isQuote mark.quote)

/-! ## Reading a header -/

theorem readsFrom_source (gap : Gap) (mark : Mark) (text : List Char) :
    ReadsFrom target rest ("from".toList ++ (gap.text ++ mark.char :: text)) ↔
      gap.text ≠ [] ∧ Quotes quote target rest (mark.char :: text) := by
  have hstops := gap.stops_isWord (stops_cons.mpr (isWord_of_isQuote mark.quote) : Stops _ (_ :: text))
  rw [readsFrom_word (by decide) gap.blank hstops (mark.stops_isBlank text)]
  exact and_iff_right rfl

theorem readsSource_gap (space gap : Gap) (mark : Mark) (text : List Char) :
    ReadsSource target rest (space.text ++ ("from".toList ++ (gap.text ++ mark.char :: text))) ↔
      space.text ≠ [] ∧ gap.text ≠ [] ∧ Quotes quote target rest (mark.char :: text) := by
  rw [readsSource_append space.blank (stops_isBlank_word (by decide) (by decide) _),
    readsFrom_source]

theorem Member.ne_brace (member : Member) : ∀ c ∈ member.text, (c != '\x7d') = true := by
  refine member.forall_mem_text ?_ ?_
  · rintro c hc
    exact bne_iff_ne.mpr fun hsame => absurd (hsame ▸ hc) (by decide)
  · rintro c hc
    exact bne_iff_ne.mpr fun hsame => absurd (hsame ▸ hc) (by decide)

theorem Bindings.reads_iff (bindings : Bindings) (gap : Gap) (mark : Mark) (text : List Char) :
    ReadsBinding target rest
        (bindings.text ++ ("from".toList ++ (gap.text ++ mark.char :: text))) ↔
      bindings.IsSpaced ∧ gap.text ≠ [] ∧ Quotes quote target rest (mark.char :: text) := by
  cases bindings with
  | braces members after =>
      have hinner : ∀ c ∈ join ',' (members.map Member.text), (c != '\x7d') = true :=
        forall_mem_join rfl (List.forall_mem_map.mpr fun member _ => member.ne_brace)
      simp only [Bindings.text, List.cons_append, List.append_assoc]
      rw [readsBinding_braces hinner, readsSource_gap]
      rfl
  | all star space name after =>
      simp only [Bindings.text, keyword, List.cons_append, List.append_assoc]
      rw [readsBinding_star star.blank space.blank space.ne_nil name.word name.ne_nil
        (after.stops_isWord _), readsSource_gap]
      exact and_congr_right fun _ => and_iff_right after.ne_nil

/-- Bindings start with a sign. -/
theorem Bindings.exists_text (bindings : Bindings) :
    ∃ sign inner, bindings.text = sign :: inner ∧ (sign = '\x7b' ∨ sign = '*') := by
  cases bindings with
  | braces members after => exact ⟨_, _, rfl, .inl rfl⟩
  | all star space name after => exact ⟨_, _, rfl, .inr rfl⟩

theorem Bindings.stops (bindings : Bindings) {accepts : Char → Bool}
    (hbrace : accepts '\x7b' = false) (hstar : accepts '*' = false) (text : List Char) :
    Stops accepts (bindings.text ++ text) := by
  obtain ⟨sign, inner, hinner, rfl | rfl⟩ := bindings.exists_text
  · rw [hinner]
    exact stops_cons.mpr hbrace
  · rw [hinner]
    exact stops_cons.mpr hstar

theorem not_readsFrom_bindings (bindings : Bindings) (text : List Char) :
    ¬ ReadsFrom target rest (bindings.text ++ text) := by
  obtain ⟨sign, inner, hinner, rfl | rfl⟩ := bindings.exists_text
  · rw [hinner]
    exact fun h => absurd h.head (by decide)
  · rw [hinner]
    exact fun h => absurd h.head (by decide)

theorem not_readsBindings_source (gap : Gap) (mark : Mark) (text : List Char) :
    ¬ ReadsBindings target rest ("from".toList ++ (gap.text ++ mark.char :: text)) :=
  continues_binding.source gap.blank mark.quote

/-! ## Bindings behind `import` -/

theorem not_readsBindings_mark (mark : Mark) (text : List Char) :
    ¬ ReadsBindings target rest (mark.char :: text) := by
  have hmark := mark.quote
  intro h
  rcases h.head with hbrace | hstar | hword
  · rw [hbrace] at hmark
    exact absurd hmark (by decide)
  · rw [hstar] at hmark
    exact absurd hmark (by decide)
  · rw [isWord_of_isQuote hmark] at hword
    cases hword

theorem readsBindings_name (name : Name) (after : Space) (gap : Gap) (mark : Mark)
    (text : List Char) :
    ReadsBindings target rest
        (name.text ++ (after.text ++ ("from".toList ++ (gap.text ++ mark.char :: text)))) ↔
      gap.text ≠ [] ∧ Quotes quote target rest (mark.char :: text) := by
  rw [readsBindings_word name.word name.ne_nil after.blank (after.stops_isWord _)
    (stops_isBlank_word (by decide) (by decide) _), readsFrom_source]
  constructor
  · rintro ⟨-, ⟨-, hbinding⟩ | hfound⟩
    · exact absurd (ImportRule.readsBindings_iff.mpr (.inr hbinding))
        (not_readsBindings_source gap mark text)
    · exact hfound
  · exact fun h => ⟨after.ne_nil, .inr h⟩

/-- Here `type` is no name: the name behind it is. -/
theorem readsBindings_typed (space : Space) (name : Name) (after : Space) (gap : Gap) (mark : Mark)
    (text : List Char) :
    ReadsBindings target rest ("type".toList ++ (space.text ++
        (name.text ++ (after.text ++ ("from".toList ++ (gap.text ++ mark.char :: text)))))) ↔
      gap.text ≠ [] ∧ Quotes quote target rest (mark.char :: text) := by
  rw [readsBindings_word (by decide) (by decide) space.blank (space.stops_isWord _)
    (name.stops_isBlank _), readsBinding_word name.word name.ne_nil (after.stops_isWord _),
    readsSource_gap, readsFrom_word name.word after.blank (after.stops_isWord _)
    (stops_isBlank_word (by decide) (by decide) _)]
  constructor
  · rintro ⟨-, ⟨-, -, hfound⟩ | ⟨-, -, hquotes⟩⟩
    · exact hfound
    · exact absurd hquotes.isQuote (by decide)
  · exact fun h => ⟨space.ne_nil, .inl ⟨rfl, after.ne_nil, h⟩⟩

theorem readsBindings_group (bindings : Bindings) (gap : Gap) (mark : Mark) (text : List Char) :
    ReadsBindings target rest
        (bindings.text ++ ("from".toList ++ (gap.text ++ mark.char :: text))) ↔
      bindings.IsSpaced ∧ gap.text ≠ [] ∧ Quotes quote target rest (mark.char :: text) := by
  have hbindings : ReadsBinding target rest _ ↔ _ := bindings.reads_iff gap mark text
  obtain ⟨sign, inner, hinner, hsign⟩ := bindings.exists_text
  have hne : sign ≠ 't' := by rcases hsign with rfl | rfl <;> decide
  rw [hinner, List.cons_append] at hbindings ⊢
  rw [readsBindings_of_ne hne, hbindings]

theorem readsBindings_types (inner : Gap) (bindings : Bindings) (gap : Gap) (mark : Mark)
    (text : List Char) :
    ReadsBindings target rest ("type".toList ++ (inner.text ++
        (bindings.text ++ ("from".toList ++ (gap.text ++ mark.char :: text))))) ↔
      inner.text ≠ [] ∧ bindings.IsSpaced ∧ gap.text ≠ [] ∧
        Quotes quote target rest (mark.char :: text) := by
  rw [readsBindings_word (by decide) (by decide) inner.blank
    (inner.stops_isWord (bindings.stops (by decide) (by decide) _))
    (bindings.stops (by decide) (by decide) _), bindings.reads_iff]
  refine and_congr_right fun _ => ⟨?_, fun h => .inl ⟨rfl, h⟩⟩
  rintro (⟨-, hfound⟩ | hfrom)
  · exact hfound
  · exact absurd hfrom (not_readsFrom_bindings bindings _)

/-- The rule knows no comma behind a default name. -/
theorem not_readsBindings_comma (name : Name) (comma : Gap) (text : List Char) :
    ¬ ReadsBindings target rest (name.text ++ (comma.text ++ ',' :: text)) := by
  rw [readsBindings_word name.word name.ne_nil comma.blank
    (comma.stops_isWord (stops_cons.mpr (by decide))) (stops_cons.mpr (by decide))]
  rintro ⟨-, ⟨-, hbinding⟩ | hfrom⟩
  · exact absurd hbinding.head (by decide)
  · exact absurd hfrom.head (by decide)

namespace Header

/-- The text of a header with bindings starts with a word, a brace or a star. -/
theorem stops (header : Header) (hbare : ¬ header.IsBare) {accepts : Char → Bool}
    (hword : ∀ c, isWord c = true → accepts c = false) (hbrace : accepts '\x7b' = false)
    (hstar : accepts '*' = false) (text : List Char) : Stops accepts (header.body ++ text) := by
  cases header with
  | bare gap => exact absurd trivial hbare
  | one before type? name after gap =>
      cases type? with
      | none =>
          simp only [body, typeText, keyword, List.nil_append, List.append_assoc]
          exact name.stops hword _
      | some space => exact stops_cons.mpr (hword 't' (by decide))
  | group before bindings gap =>
      rw [body, List.append_assoc]
      exact bindings.stops hbrace hstar _
  | types before inner bindings gap => exact stops_cons.mpr (hword 't' (by decide))
  | oneAndGroup before name comma inner bindings gap =>
      rw [body, List.append_assoc]
      exact name.stops hword _

instance (header : Header) : Decidable header.IsBare :=
  match header with
  | bare _ => isTrue trivial
  | one .. | group .. | types .. | oneAndGroup .. => isFalse id

theorem stops_isBlank (header : Header) (mark : Mark) (text : List Char) :
    Stops isBlank (header.body ++ mark.char :: text) := by
  by_cases hbare : header.IsBare
  · cases header with
    | bare gap => exact mark.stops_isBlank text
    | one | group | types | oneAndGroup => exact hbare.elim
  · exact header.stops hbare (fun _ => isBlank_of_isWord) (by decide) (by decide) _

theorem stops_isWord (header : Header) (mark : Mark) (text : List Char) :
    Stops isWord (header.gap.text ++ (header.body ++ mark.char :: text)) := by
  cases header with
  | bare gap => exact gap.stops_isWord (stops_cons.mpr (isWord_of_isQuote mark.quote))
  | group before bindings gap =>
      rw [body, List.append_assoc]
      exact before.stops_isWord (bindings.stops (by decide) (by decide) _)
  | one before _ _ _ _ | types before _ _ _ | oneAndGroup before _ _ _ _ _ =>
      exact before.stops_isWord _

/-- Behind `import`, the rule with bindings reads the headers with bindings that are found. -/
theorem readsBindings_iff (header : Header) (mark : Mark) (text : List Char) :
    header.gap.text ≠ [] ∧ ReadsBindings target rest (header.body ++ mark.char :: text) ↔
      ¬ header.IsBare ∧ header.IsFound ∧ Quotes quote target rest (mark.char :: text) := by
  cases header with
  | bare gap => exact iff_of_false (fun h => not_readsBindings_mark mark text h.2) fun h => h.1 trivial
  | one before type? name after gap =>
      cases type? with
      | none =>
          simp only [body, typeText, keyword, List.nil_append, List.append_assoc]
          rw [readsBindings_name]
          exact ⟨fun h => ⟨id, h.2⟩, fun h => ⟨before.ne_nil, h.2⟩⟩
      | some space =>
          simp only [body, typeText, keyword, List.append_assoc]
          rw [readsBindings_typed]
          exact ⟨fun h => ⟨id, h.2⟩, fun h => ⟨before.ne_nil, h.2⟩⟩
  | group before bindings gap =>
      simp only [body, keyword, List.append_assoc]
      rw [readsBindings_group]
      exact ⟨fun h => ⟨id, ⟨h.1, h.2.1, h.2.2.1⟩, h.2.2.2⟩,
        fun h => ⟨h.2.1.1, h.2.1.2.1, h.2.1.2.2, h.2.2⟩⟩
  | types before inner bindings gap =>
      simp only [body, keyword, List.append_assoc]
      rw [readsBindings_types]
      exact ⟨fun h => ⟨id, ⟨h.2.1, h.2.2.1, h.2.2.2.1⟩, h.2.2.2.2⟩,
        fun h => ⟨before.ne_nil, h.2.1.1, h.2.1.2.1, h.2.1.2.2, h.2.2⟩⟩
  | oneAndGroup before name comma inner bindings gap =>
      simp only [body, List.append_assoc, List.cons_append]
      exact iff_of_false (fun h => not_readsBindings_comma name comma _ h.2) fun h => h.2.1

/-- Behind `import`, the rule without bindings reads the headers without bindings. -/
theorem quotes_iff (header : Header) (mark : Mark) (text : List Char) :
    header.gap.text ≠ [] ∧ Quotes quote target rest (header.body ++ mark.char :: text) ↔
      header.IsBare ∧ header.IsFound ∧ Quotes quote target rest (mark.char :: text) := by
  by_cases hbare : header.IsBare
  · cases header with
    | bare gap => exact (and_iff_right trivial).symm
    | one | group | types | oneAndGroup => exact hbare.elim
  · refine ⟨fun h => ?_, fun h => absurd h.1 hbare⟩
    have hstops := header.stops hbare (fun _ => isQuote_of_isWord) (by decide) (by decide)
      (mark.char :: text)
    generalize header.body ++ mark.char :: text = behind at h hstops
    cases behind with
    | nil => exact absurd h.2 not_quotes_nil
    | cons c behind =>
        have hquote := h.2.isQuote
        rw [stops_cons.mp hstops] at hquote
        cases hquote

end Header

end SourceAtlas.Script
