import SourceAtlas.Proofs.Import.Declaration

/-!
# Programs of import declarations

A rule for import declarations goes through a program declaration by declaration: it takes the
specifier of a declaration that it reads and passes over any other one.
-/

namespace SourceAtlas.Script

open Text ImportRule

variable {rule : ImportRule} {next : List Char → List Char → List Char → Prop}
  {reads : Header → Prop} {target rest back : List Char} {c : Char}

/-- The text of a program, one declaration behind the other. -/
def programText (program : List Declaration) : List Char := join '\n' (program.map Declaration.text)

/-- The rule reads the declarations with these headers. -/
structure Finds (rule : ImportRule) (next : List Char → List Char → List Char → Prop)
    (reads : Header → Prop) : Prop extends Continues rule next where
  next_iff : ∀ {target rest : List Char} (header : Header) (mark : Mark) (text : List Char),
    header.gap.text ≠ [] ∧ next target rest (header.body ++ mark.char :: text) ↔
      reads header ∧ Quotes quote target rest (mark.char :: text)

theorem finds_binding :
    Finds bindingImport ReadsBindings fun header => ¬ header.IsBare ∧ header.IsFound where
  toContinues := continues_binding
  next_iff header mark text := (header.readsBindings_iff mark text).trans and_assoc.symm

theorem finds_bare : Finds bareImport (Quotes quote) fun header => header.IsBare ∧ header.IsFound where
  toContinues := continues_bare
  next_iff header mark text := (header.quotes_iff mark text).trans and_assoc.symm

/-! ## Silence behind `import` -/

theorem quiet_cons (h : Continues rule next) (hc : c ≠ 'i') {front : List Char} :
    rule.Quiet (c :: front) back ↔ rule.Quiet front back := by
  have hsingle : rule.Quiet [c] (front ++ back) :=
    h.quiet_of_not_mem fun hmem => hc (List.mem_singleton.mp hmem).symm
  exact quiet_append.trans (and_iff_right hsingle)

theorem Member.quiet_text (member : Member) (h : Continues rule next) (hc : c = ',' ∨ c = '\x7d') :
    rule.Quiet member.text (c :: back) := by
  have hname : rule.Quiet member.name.text (member.after.text ++ c :: back) :=
    h.quiet_name_sign member.name.word member.after.blank hc
  rw [Member.text, quiet_append, quiet_append]
  exact ⟨h.quiet_gap member.before.blank, hname, h.quiet_gap member.after.blank⟩

theorem quiet_members (h : Continues rule next) (members : List Member) :
    rule.Quiet (join ',' (members.map Member.text)) ('\x7d' :: back) := by
  induction members with
  | nil => trivial
  | cons member members ih =>
      cases members with
      | nil => exact member.quiet_text h (.inr rfl)
      | cons other members =>
          have hcomma := (quiet_cons h (c := ',') (by decide)).mpr ih
          exact quiet_append.mpr ⟨member.quiet_text h (.inl rfl), hcomma⟩

theorem quiet_keyword (h : Continues rule next) {word : String} (hword : 'i' ∉ word.toList)
    {behind : List Char} (hbehind : rule.Quiet behind back) :
    rule.Quiet (keyword word behind) back :=
  quiet_append.mpr ⟨h.quiet_of_not_mem hword, hbehind⟩

theorem quiet_source (h : Continues rule next) (gap : Gap) :
    rule.Quiet (keyword "from" gap.text) back :=
  quiet_keyword h (by decide) (h.quiet_gap gap.blank)

theorem quiet_name_source (h : Continues rule next) (name : Name) (after : Space) (gap : Gap)
    (mark : Mark) (text : List Char) :
    rule.Quiet name.text (after.text ++ (keyword "from" gap.text ++ mark.char :: text)) := by
  rw [keyword, List.append_assoc]
  exact h.quiet_name_source name.word after.blank after.ne_nil gap.blank mark.quote

theorem Bindings.quiet_text (bindings : Bindings) (h : Continues rule next) (gap : Gap) (mark : Mark)
    (text : List Char) :
    rule.Quiet bindings.text (keyword "from" gap.text ++ mark.char :: text) := by
  cases bindings with
  | braces members after =>
      rw [Bindings.text, quiet_cons h (by decide), quiet_append, quiet_cons h (by decide)]
      exact ⟨quiet_members h members, h.quiet_gap after.blank⟩
  | all star space name after =>
      have hname : rule.Quiet (space.text ++ (name.text ++ after.text))
          (keyword "from" gap.text ++ mark.char :: text) := by
        rw [quiet_append, quiet_append]
        exact ⟨h.quiet_gap space.blank, quiet_name_source h name after gap mark text,
          h.quiet_gap after.blank⟩
      rw [Bindings.text, quiet_cons h (by decide), quiet_append]
      exact ⟨h.quiet_gap star.blank, quiet_keyword h (by decide) hname⟩

/-- No match starts in a header behind `import`. -/
theorem Header.quiet_body (header : Header) (h : Continues rule next) (mark : Mark)
    (text : List Char) : rule.Quiet header.body (mark.char :: text) := by
  cases header with
  | bare gap => trivial
  | one before type? name after gap =>
      have htype : ∀ back, rule.Quiet (typeText type?) back := fun back => by
        cases type? with
        | none => trivial
        | some space => exact quiet_keyword h (by decide) (h.quiet_gap space.blank)
      rw [body, quiet_append, quiet_append, quiet_append, List.append_assoc after.text]
      exact ⟨htype _, quiet_name_source h name after gap mark text, h.quiet_gap after.blank,
        quiet_source h gap⟩
  | group before bindings gap =>
      rw [body, quiet_append]
      exact ⟨bindings.quiet_text h gap mark text, quiet_source h gap⟩
  | types before inner bindings gap =>
      refine quiet_keyword h (by decide) ?_
      rw [quiet_append, quiet_append]
      exact ⟨h.quiet_gap inner.blank, bindings.quiet_text h gap mark text, quiet_source h gap⟩
  | oneAndGroup before name comma inner bindings gap =>
      rw [body, quiet_append, quiet_append, quiet_cons h (by decide), quiet_append, quiet_append,
        List.append_assoc comma.text]
      exact ⟨h.quiet_name_sign name.word comma.blank (.inl rfl), h.quiet_gap comma.blank,
        h.quiet_gap inner.blank, bindings.quiet_text h gap mark text, quiet_source h gap⟩

theorem Specifier.quiet_text (specifier : Specifier) (h : Continues rule next) (mark : Mark) :
    rule.Quiet (mark.char :: (specifier.text ++ [mark.char])) back := by
  have hmark : mark.char ≠ 'i' := fun hsame => absurd (hsame ▸ mark.quote) (by decide)
  rw [quiet_cons h hmark, quiet_append, quiet_cons h hmark]
  exact ⟨h.quiet_module specifier.solid mark.quote, trivial⟩

/-! ## Readings -/

theorem Declaration.text_append (declaration : Declaration) (back : List Char) :
    declaration.text ++ back = "import".toList ++ (declaration.header.gap.text ++
      (declaration.header.body ++ declaration.mark.char ::
        (declaration.specifier.text ++ declaration.mark.char :: back))) := by
  simp [Declaration.text, Header.text, keyword]

theorem Finds.mem_matchesAt (h : Finds rule next reads) (declaration : Declaration)
    (back : List Char) :
    (target, rest) ∈ rule.matchesAt (declaration.text ++ back) ↔
      reads declaration.header ∧ declaration.specifier.text = target ∧ back = rest := by
  obtain ⟨header, mark, specifier⟩ := declaration
  rw [Declaration.text_append, h.mem_word_iff (by decide) header.gap.blank
    (header.stops_isWord mark _) (header.stops_isBlank mark _), and_iff_right rfl, h.next_iff,
    quotes_module mark.quote mark.quote specifier.plain specifier.ne_nil]

/-- A declaration that the rule does not read is passed over. -/
theorem Finds.quiet_text (h : Finds rule next reads) {declaration : Declaration}
    (hreads : ¬ reads declaration.header) (back : List Char) :
    rule.Quiet declaration.text back := by
  obtain ⟨header, mark, specifier⟩ := declaration
  have hkeyword : rule.Quiet "import".toList (header.gap.text ++
      (header.body ++ mark.char :: ((specifier.text ++ [mark.char]) ++ back))) :=
    h.quiet_word (by decide) header.gap.blank (header.stops_isWord mark _)
      (header.stops_isBlank mark _) fun target rest hgap hnext =>
        hreads ((h.next_iff header mark _).mp ⟨hgap, hnext⟩).1
  rw [Declaration.text, Header.text, keyword, quiet_append, quiet_append, quiet_append,
    List.append_assoc]
  exact ⟨⟨hkeyword, h.quiet_gap header.gap.blank, header.quiet_body h.toContinues mark _⟩,
    specifier.quiet_text h.toContinues mark⟩

theorem Finds.reads_text [DecidablePred reads] (h : Finds rule next reads)
    (declaration : Declaration) (back : List Char) :
    rule.Reads (declaration.text ++ back)
      (if reads declaration.header then [declaration.specifier.text] else []) back := by
  split
  · next hreads =>
      exact reads_of_mem_iff ((h.mem_matchesAt declaration back).trans (and_iff_right hreads))
  · next hreads => exact (h.quiet_text hreads back).reads

/-- The rule finds the specifiers of the declarations that it reads, in order. -/
theorem Finds.scan_programText [DecidablePred reads] (h : Finds rule next reads)
    (program : List Declaration) :
    rule.scan (programText program) =
      (program.filter (reads ·.header)).map (·.specifier.text) := by
  have hreads : rule.Reads (programText program)
      ((program.filter (reads ·.header)).map (·.specifier.text)) [] := by
    induction program with
    | nil => exact .done []
    | cons declaration program ih =>
        have hfirst : ((declaration :: program).filter (reads ·.header)).map (·.specifier.text) =
            (if reads declaration.header then [declaration.specifier.text] else []) ++
              (program.filter (reads ·.header)).map (·.specifier.text) := by
          rw [List.filter_cons]
          by_cases hreads : reads declaration.header <;> simp [hreads]
        rw [hfirst]
        cases program with
        | nil =>
            have htext := h.reads_text declaration []
            rw [List.append_nil] at htext
            exact htext.trans ih
        | cons other program =>
            have hbreak : rule.Quiet ['\n'] (programText (other :: program)) :=
              h.quiet_of_not_mem (by decide)
            exact (h.reads_text declaration _).trans (hbreak.reads.trans ih)
  rw [hreads.scan h.isFree]
  exact List.append_nil _

end SourceAtlas.Script
