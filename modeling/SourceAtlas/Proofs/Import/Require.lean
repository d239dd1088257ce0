import SourceAtlas.Proofs.Import.Program

/-!
# Calls of `require` in a program

A specifier may end in `require(`, and the one behind it may start with `)`. What stands between
them, from quote to quote, is then read as the module of a call.
-/

namespace SourceAtlas

namespace ImportRule

open Pattern Text

variable {target rest text front back : List Char} {mark : Char}

/-- A call starts with `require` and an opening parenthesis, perhaps with white space between. -/
theorem mem_requireCall : (target, rest) ∈ requireCall.matchesAt text ↔
    ∃ gap behind, text = ("require".toList ++ (gap ++ ['('])) ++ behind ∧
      (∀ c ∈ gap, isBlank c = true) ∧
      anyBlanks.Allows behind (Quotes requireCall.tail target rest) := by
  have hlead : ∀ next, requireCall.lead.Allows text next ↔
      (Pattern.text "require").Allows text fun behind => anyBlanks.Allows behind fun behind =>
        (Pattern.text "(").Allows behind fun behind => anyBlanks.Allows behind fun behind =>
          quote.Allows behind next := by
    intro next
    unfold requireCall
    dsimp only
    rw [allows_seq, allows_seq, allows_seq, allows_seq]
  rw [mem_matchesAt, hlead]
  constructor
  · intro h
    obtain ⟨atGap, rfl, hgap⟩ := allows_literal.mp h
    obtain ⟨gap, atSign, rfl, hblank, hsign⟩ := allows_run.mp hgap
    obtain ⟨behind, rfl, hbehind⟩ := allows_literal.mp hsign
    exact ⟨gap, behind, by simp, hblank, hbehind⟩
  · rintro ⟨gap, behind, rfl, hblank, hbehind⟩
    rw [List.append_assoc, List.append_assoc]
    exact (allows_literal_append _).mpr
      (allows_run.mpr ⟨gap, _, rfl, hblank, (allows_literal_append _).mpr hbehind⟩)

theorem isFree_requireCall : requireCall.IsFree := isFree_of_leading rfl (by decide)

/-- The way to the parenthesis is short of the next quote. -/
theorem exists_front_of_append {gap behind : List Char} (hblank : ∀ c ∈ gap, isBlank c = true)
    (hmark : isQuote mark = true)
    (hsplit : front ++ mark :: back = ("require".toList ++ (gap ++ ['('])) ++ behind) :
    ∃ more, front = ("require".toList ++ (gap ++ ['('])) ++ more ∧ behind = more ++ mark :: back := by
  rcases List.append_eq_append_iff.mp hsplit with ⟨more, hshort, hbehind⟩ | hlong
  · cases more with
    | nil => exact ⟨[], by simpa using hshort.symm, hbehind.symm⟩
    | cons first more =>
        obtain ⟨rfl, -⟩ := List.cons.inj hbehind
        have hmem : mark ∈ "require".toList ++ (gap ++ ['(']) := by rw [hshort]; simp
        rw [List.mem_append, List.mem_append, List.mem_singleton] at hmem
        rcases hmem with hkeyword | hgap | rfl
        · have hplain : ∀ c ∈ "require".toList, isQuote c = false := by decide
          rw [hplain mark hkeyword] at hmark
          cases hmark
        · have hplain := isBlank_of_isQuote hmark
          rw [hblank mark hgap] at hplain
          cases hplain
        · exact absurd hmark (by decide)
  · exact hlong

/-- No call starts where no parenthesis opens in front of the next quote. -/
theorem quiet_requireCall (hfront : '(' ∉ front) (hmark : isQuote mark = true) :
    requireCall.Quiet front (mark :: back) := by
  refine quiet_of_suffix fun part _ hpart target rest hfound => ?_
  obtain ⟨gap, behind, hsplit, hblank, -⟩ := mem_requireCall.mp hfound
  obtain ⟨more, hmore, -⟩ := exists_front_of_append hblank hmark hsplit
  exact hfront (hpart.subset (by simp [hmore]))

/-- In a specifier, a call starts at `require(` in front of the closing quote. -/
theorem mem_requireCall_specifier (hplain : ∀ c ∈ front, isQuote c = false)
    (hsolid : ∀ c ∈ front, isBlank c = false) (hmark : isQuote mark = true) :
    (target, rest) ∈ requireCall.matchesAt (front ++ mark :: back) ↔
      front = "require(".toList ∧ Quotes requireCall.tail target rest (mark :: back) := by
  have hskip : ∀ {text : List Char}, Stops isBlank text →
      (anyBlanks.Allows text (Quotes requireCall.tail target rest) ↔
        Quotes requireCall.tail target rest text) := fun hstops =>
    allows_run_of_stops hstops fun c text h => isBlank_of_isQuote h.isQuote
  have hmarkBlank := isBlank_of_isQuote hmark
  rw [mem_requireCall]
  constructor
  · rintro ⟨gap, behind, hsplit, hblank, hbehind⟩
    obtain ⟨more, rfl, rfl⟩ := exists_front_of_append hblank hmark hsplit
    have hgap : gap = [] := by
      refine List.eq_nil_iff_forall_not_mem.mpr fun c hc => ?_
      have hsolid := hsolid c (by simp [hc])
      rw [hblank c hc] at hsolid
      cases hsolid
    subst hgap
    cases more with
    | nil => exact ⟨rfl, (hskip (stops_cons.mpr hmarkBlank)).mp hbehind⟩
    | cons c more =>
        have hc : c ∈ "require".toList ++ ([] ++ ['(']) ++ c :: more := by simp
        have hquote := ((hskip (stops_cons.mpr (hsolid c hc))).mp hbehind).isQuote
        rw [hplain c hc] at hquote
        cases hquote
  · rintro ⟨rfl, hquotes⟩
    have hempty : ∀ c ∈ ([] : List Char), isBlank c = true := fun c hc => nomatch hc
    exact ⟨[], mark :: back, rfl, hempty, (hskip (stops_cons.mpr hmarkBlank)).mpr hquotes⟩

/-- No call starts in a specifier that does not end in `require(`, or with no module behind it. -/
theorem quiet_requireCall_specifier (hplain : ∀ c ∈ front, isQuote c = false)
    (hsolid : ∀ c ∈ front, isBlank c = false) (hmark : isQuote mark = true)
    (hnone : "require(".toList <:+ front →
      ∀ target rest, ¬ Quotes requireCall.tail target rest (mark :: back)) :
    requireCall.Quiet front (mark :: back) := by
  refine quiet_of_suffix fun part _ hpart target rest hfound => ?_
  obtain ⟨rfl, hquotes⟩ := (mem_requireCall_specifier (fun c hc => hplain c (hpart.subset hc))
    (fun c hc => hsolid c (hpart.subset hc)) hmark).mp hfound
  exact hnone hpart target rest hquotes

theorem quiet_requireCall_mark (hmark : isQuote mark = true) : requireCall.Quiet [mark] back := by
  refine ⟨List.eq_nil_iff_forall_not_mem.mpr fun ⟨target, rest⟩ hfound => ?_, trivial⟩
  obtain ⟨gap, behind, hsplit, -⟩ := mem_requireCall.mp hfound
  obtain ⟨rfl, -⟩ := List.cons.inj hsplit
  exact absurd hmark (by decide)

/-- No call starts in front of the last `require(` of a specifier. -/
theorem quiet_before_requireCall (hplain : ∀ c ∈ front ++ "require(".toList, isQuote c = false)
    (hsolid : ∀ c ∈ front ++ "require(".toList, isBlank c = false) (hmark : isQuote mark = true) :
    requireCall.Quiet front ("require(".toList ++ mark :: back) := by
  refine quiet_of_suffix fun part hne hpart target rest hfound => ?_
  obtain ⟨start, rfl⟩ := hpart
  rw [List.append_assoc] at hplain hsolid
  rw [← List.append_assoc] at hfound
  obtain ⟨hsame, -⟩ := (mem_requireCall_specifier (List.forall_mem_append.mp hplain).2
    (List.forall_mem_append.mp hsolid).2 hmark).mp hfound
  exact hne (List.append_left_eq_self.mp hsame)

/-- The module of a call goes from quote to quote, and a parenthesis has to close behind it. -/
theorem quotes_requireCall {other : Char} (hmark : isQuote mark = true)
    (hother : isQuote other = true) (hfront : ∀ c ∈ front, isQuote c = false) (hne : front ≠ [])
    (hback : Stops isBlank back) :
    Quotes requireCall.tail target rest (mark :: (front ++ other :: back)) ↔
      front = target ∧ back = ')' :: rest := by
  have hstops : Stops (fun c => !isQuote c) (other :: back) := by
    rw [stops_cons, hother]
    rfl
  have hend : ∀ text, requireCall.tail.Allows text (· = rest) ↔
      quote.Allows text fun behind => anyBlanks.Allows behind fun behind =>
        (Pattern.text ")").Allows behind (· = rest) := by
    intro text
    unfold requireCall
    dsimp only
    rw [allows_seq, allows_seq]
  have htail : ∀ c text, requireCall.tail.Allows (c :: text) (· = rest) → isQuote c = true :=
    fun c text h => isQuote_of_allows_quote ((hend _).mp h)
  have hsign : ∀ c text, (Pattern.text ")").Allows (c :: text) (· = rest) → isBlank c = false := by
    intro c text h
    rw [head_of_allows_text rfl h]
    decide
  have hclose : (Pattern.text ")").Allows back (· = rest) ↔ back = ')' :: rest := by
    constructor
    · intro h
      obtain ⟨behind, hbehind, rfl⟩ := allows_literal.mp h
      exact hbehind
    · rintro rfl
      exact (allows_literal_append _).mpr rfl
  rw [quotes_cons hmark hfront hstops htail, and_iff_right hne, hend, allows_quote_cons hother]
  exact and_congr_right fun _ => (allows_run_of_stops hback hsign).trans hclose

theorem not_quotes_mark (hmark : isQuote mark = true) :
    ¬ Quotes requireCall.tail target rest [mark] := by
  intro h
  have hatEnd : unquoted.Allows [] _ := (allows_quote_cons hmark).mp h
  exact not_allows_run1_nil hatEnd

end ImportRule

namespace Script

open Text ImportRule

/-! ## Specifiers with a call between them -/

/-- The specifiers make a call of `require` out of what stands between them. -/
def Swallows (first second : Declaration) : Prop :=
  "require(".toList <:+ first.specifier.text ∧ [')'] <+: second.specifier.text

instance (first second : Declaration) : Decidable (Swallows first second) :=
  inferInstanceAs (Decidable (_ ∧ _))

/-- The texts that are taken for modules of calls. -/
def swallowed : List Declaration → List (List Char)
  | first :: second :: program =>
      (if Swallows first second then ['\n' :: second.header.text] else []) ++
        swallowed (second :: program)
  | _ => []

variable {target rest : List Char}

/-! ## Readings -/

/-- The text behind a declaration of a program. -/
def textBehind (program : List Declaration) : List Char :=
  program.flatMap fun declaration => '\n' :: declaration.text

theorem programText_cons (declaration : Declaration) (program : List Declaration) :
    programText (declaration :: program) = declaration.text ++ textBehind program := by
  rw [programText, List.map_cons, join_cons, List.flatMap_map]
  rfl

theorem textBehind_cons (declaration : Declaration) (program : List Declaration) :
    textBehind (declaration :: program) = ('\n' :: declaration.header.text) ++
      declaration.mark.char ::
        (declaration.specifier.text ++ declaration.mark.char :: textBehind program) := by
  simp [textBehind, Declaration.text]

theorem Specifier.stops_isBlank (specifier : Specifier) (text : List Char) :
    Stops isBlank (specifier.text ++ text) := by
  obtain ⟨c, more, hname⟩ := List.exists_cons_of_ne_nil specifier.ne_nil
  rw [hname]
  exact stops_cons.mpr (specifier.solid c (hname ▸ List.mem_cons_self))

/-- A call behind the closing quote of a specifier has the text up to the next specifier for its
module. -/
theorem quotes_textBehind (mark : Mark) (declaration : Declaration) (program : List Declaration) :
    Quotes requireCall.tail target rest (mark.char :: textBehind (declaration :: program)) ↔
      '\n' :: declaration.header.text = target ∧
        declaration.specifier.text ++ declaration.mark.char :: textBehind program = ')' :: rest := by
  have hplain : ∀ c ∈ '\n' :: declaration.header.text, isQuote c = false :=
    List.forall_mem_cons.mpr ⟨by decide, declaration.header.isQuote_of_mem_text⟩
  rw [textBehind_cons]
  exact quotes_requireCall mark.quote declaration.mark.quote hplain (List.cons_ne_nil _ _)
    (declaration.specifier.stops_isBlank _)

theorem reads_call {first second : Declaration} (hswallows : Swallows first second)
    (program : List Declaration) : ∃ inner, second.specifier.text = ')' :: inner ∧
      requireCall.Reads
        ("require(".toList ++ first.mark.char :: textBehind (second :: program))
        ['\n' :: second.header.text] (inner ++ second.mark.char :: textBehind program) := by
  obtain ⟨inner, hinner⟩ := hswallows.2
  refine ⟨inner, hinner.symm, reads_of_mem_iff ?_⟩
  intro other back
  have hmem : (other, back) ∈ requireCall.matchesAt
      ("require(".toList ++ first.mark.char :: textBehind (second :: program)) ↔ _ :=
    mem_requireCall_specifier (by decide) (by decide) first.mark.quote
  refine hmem.trans ((and_iff_right rfl).trans ?_)
  rw [quotes_textBehind, ← hinner, List.append_assoc, List.singleton_append, List.cons_inj_right]

/-- No call is read up to the end of a specifier that does not swallow the next one. -/
theorem quiet_of_not_swallows {first second : Declaration} (hswallows : ¬ Swallows first second)
    {front : List Char} (hfront : front <:+ first.specifier.text) (program : List Declaration) :
    requireCall.Quiet front (first.mark.char :: textBehind (second :: program)) := by
  refine quiet_requireCall_specifier (fun c hc => first.specifier.plain c (hfront.subset hc))
    (fun c hc => first.specifier.solid c (hfront.subset hc)) first.mark.quote ?_
  intro hsuffix target rest hquotes
  obtain ⟨-, hstart⟩ := (quotes_textBehind _ _ _).mp hquotes
  obtain ⟨c, inner, hinner⟩ := List.exists_cons_of_ne_nil second.specifier.ne_nil
  rw [hinner, List.cons_append, List.cons.injEq] at hstart
  obtain ⟨rfl, -⟩ := hstart
  exact hswallows ⟨hsuffix.trans hfront, inner, hinner.symm⟩

/-- Behind a declaration the calls from inside the next specifier on are read. -/
theorem reads_textBehind_cons {declaration : Declaration} {program : List Declaration}
    {found : List (List Char)}
    (h : requireCall.Reads
      (declaration.specifier.text ++ declaration.mark.char :: textBehind program) found []) :
    requireCall.Reads (textBehind (declaration :: program)) found [] := by
  have hheader : requireCall.Quiet ('\n' :: declaration.header.text) (declaration.mark.char ::
      (declaration.specifier.text ++ declaration.mark.char :: textBehind program)) :=
    quiet_requireCall (fun hmem => declaration.header.parenthesis_not_mem_text
      ((List.mem_cons.mp hmem).resolve_left (by decide))) declaration.mark.quote
  rw [textBehind_cons]
  exact hheader.reads.trans ((quiet_requireCall_mark declaration.mark.quote).reads.trans h)

/-- From inside a specifier the calls ahead are read, if none of them opens further in front. -/
theorem reads_textBehind (first : Declaration) (program : List Declaration) {front : List Char}
    (hfront : front <:+ first.specifier.text)
    (hends : "require(".toList <:+ first.specifier.text → "require(".toList <:+ front) :
    requireCall.Reads (front ++ first.mark.char :: textBehind program) (swallowed (first :: program))
      [] := by
  induction program generalizing first front with
  | nil =>
      have hnone : ∀ target rest, ¬ Quotes requireCall.tail target rest [first.mark.char] :=
        fun target rest => not_quotes_mark first.mark.quote
      have hquiet : requireCall.Quiet front [first.mark.char] :=
        quiet_requireCall_specifier (fun c hc => first.specifier.plain c (hfront.subset hc))
          (fun c hc => first.specifier.solid c (hfront.subset hc)) first.mark.quote fun _ => hnone
      exact hquiet.reads.trans (quiet_requireCall_mark first.mark.quote).reads
  | cons second program ih =>
      by_cases hswallows : Swallows first second
      · obtain ⟨inner, hinner, hcall⟩ := reads_call hswallows program
        obtain ⟨start, rfl⟩ := hends hswallows.1
        have hquiet : requireCall.Quiet start
            ("require(".toList ++ first.mark.char :: textBehind (second :: program)) :=
          quiet_before_requireCall (fun c hc => first.specifier.plain c (hfront.subset hc))
            (fun c hc => first.specifier.solid c (hfront.subset hc)) first.mark.quote
        have hinnerEnds : "require(".toList <:+ second.specifier.text →
            "require(".toList <:+ inner := by
          rw [hinner, List.suffix_cons_iff]
          exact fun h => h.resolve_left (by simp)
        have hbehind : requireCall.Reads (inner ++ second.mark.char :: textBehind program)
            (swallowed (second :: program)) [] :=
          ih second (hinner ▸ List.suffix_cons _ _) hinnerEnds
        rw [swallowed, if_pos hswallows, List.append_assoc]
        exact hquiet.reads.trans (hcall.trans hbehind)
      · have hquiet := quiet_of_not_swallows hswallows hfront program
        have hbehind := reads_textBehind_cons (ih second (List.suffix_refl _) id)
        rw [swallowed, if_neg hswallows]
        exact hquiet.reads.trans ((quiet_requireCall_mark first.mark.quote).reads.trans hbehind)

theorem scan_requireCall (program : List Declaration) :
    requireCall.scan (programText program) = swallowed program := by
  have hreads : requireCall.Reads (programText program) (swallowed program) [] := by
    cases program with
    | nil => exact .done []
    | cons first program =>
        obtain ⟨header, mark, specifier⟩ := first
        have hheader : requireCall.Quiet header.text
            (mark.char :: (specifier.text ++ mark.char :: textBehind program)) :=
          quiet_requireCall header.parenthesis_not_mem_text mark.quote
        have hbehind := reads_textBehind ⟨header, mark, specifier⟩ program (List.suffix_refl _) id
        have hall := hheader.reads.trans
          ((quiet_requireCall_mark mark.quote).reads.trans hbehind)
        rw [programText_cons, Declaration.text]
        simpa only [List.append_assoc, List.cons_append, List.nil_append] using hall
  rw [hreads.scan isFree_requireCall]
  exact List.append_nil _

end Script

end SourceAtlas
