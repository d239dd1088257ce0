import SourceAtlas.Proofs.Import.Require
import SourceAtlas.Proofs.Text.Order

/-!
# What is found in a program

The imports of a program are the specifiers of the declarations that the rules read, and whatever
stands between specifiers that make up a call of `require`.
-/

namespace SourceAtlas.Script

open Text ImportRule

variable {language : Language}

def Declaration.name (declaration : Declaration) : String := String.ofList declaration.specifier.text

instance (bindings : Bindings) : Decidable bindings.IsSpaced :=
  match bindings with
  | .braces .. | .all .. => inferInstanceAs (Decidable (_ ≠ _))

instance (header : Header) : Decidable header.IsFound :=
  match header with
  | .bare .. | .one .. => inferInstanceAs (Decidable (_ ≠ _))
  | .group .. | .types .. => inferInstanceAs (Decidable (_ ∧ _ ∧ _))
  | .oneAndGroup .. => isFalse id

theorem mem_importsOf (hscript : language = .typescript ∨ language = .javascript)
    (text : List Char) {name : String} :
    name ∈ language.importsOf text ↔ ∃ target, (target ∈ bindingImport.scan text ∨
      target ∈ bareImport.scan text ∨ target ∈ requireCall.scan text) ∧ String.ofList target = name := by
  have hrules : language.importRules = [bindingImport, bareImport, requireCall] := by
    rcases hscript with rfl | rfl <;> rfl
  simp only [Language.importsOf, extractTargets, hrules, mem_sortDistinct, List.flatMap_cons,
    List.flatMap_nil, List.append_nil, List.mem_map, List.mem_append]

theorem mem_importsOf_programText (hscript : language = .typescript ∨ language = .javascript)
    (program : List Declaration) {name : String} :
    name ∈ language.importsOf (programText program) ↔
      (∃ declaration ∈ program, declaration.header.IsFound ∧ declaration.name = name) ∨
        ∃ text ∈ swallowed program, String.ofList text = name := by
  rw [mem_importsOf hscript, finds_binding.scan_programText, finds_bare.scan_programText,
    scan_requireCall]
  simp only [List.mem_map, List.mem_filter, decide_eq_true_eq]
  constructor
  · rintro ⟨target, ⟨declaration, ⟨hmem, -, hfound⟩, rfl⟩ | ⟨declaration, ⟨hmem, -, hfound⟩, rfl⟩ |
      hcall, hname⟩
    · exact .inl ⟨declaration, hmem, hfound, hname⟩
    · exact .inl ⟨declaration, hmem, hfound, hname⟩
    · exact .inr ⟨target, hcall, hname⟩
  · rintro (⟨declaration, hmem, hfound, hname⟩ | ⟨text, hcall, hname⟩)
    · by_cases hbare : declaration.header.IsBare
      · exact ⟨_, .inr (.inl ⟨declaration, ⟨hmem, hbare, hfound⟩, rfl⟩), hname⟩
      · exact ⟨_, .inl ⟨declaration, ⟨hmem, hbare, hfound⟩, rfl⟩, hname⟩
    · exact ⟨text, .inr (.inr hcall), hname⟩

/-! ## Calls -/

theorem exists_cons_of_mem_swallowed {program : List Declaration} {text : List Char}
    (h : text ∈ swallowed program) : ∃ behind, text = '\n' :: behind := by
  induction program with
  | nil => cases h
  | cons first program ih =>
      cases program with
      | nil => cases h
      | cons second program =>
          rw [swallowed, List.mem_append] at h
          rcases h with hfirst | hbehind
          · split at hfirst
            · exact ⟨_, List.mem_singleton.mp hfirst⟩
            · cases hfirst
          · exact ih hbehind

/-- What is taken for the module of a call is no specifier. -/
theorem name_ne_of_mem_swallowed {program : List Declaration} {text : List Char}
    (h : text ∈ swallowed program) (declaration : Declaration) :
    declaration.name ≠ String.ofList text := by
  intro hsame
  obtain ⟨behind, rfl⟩ := exists_cons_of_mem_swallowed h
  have hspecifier : declaration.specifier.text = '\n' :: behind := String.ofList_inj.mp hsame
  have hsolid := declaration.specifier.solid '\n' (hspecifier ▸ List.mem_cons_self)
  exact absurd hsolid (by decide)

theorem swallowed_eq_nil_iff (program : List Declaration) :
    swallowed program = [] ↔ program.IsChain fun first second => ¬ Swallows first second := by
  induction program with
  | nil => simp [swallowed]
  | cons first program ih =>
      cases program with
      | nil => simp [swallowed]
      | cons second program =>
          rw [swallowed, List.append_eq_nil_iff, ih, List.isChain_cons_cons]
          by_cases hswallows : Swallows first second <;> simp [hswallows]

/-! ## Exactness -/

/-- The imports of a program are the specifiers of the declarations with white space where the rules
ask for it and no bindings beside a default name, and the texts between specifiers that make up
calls. So they are its specifiers exactly if each one stands in such a declaration, and no specifiers
make up a call. -/
theorem importsOf_programText (hscript : language = .typescript ∨ language = .javascript)
    (program : List Declaration) :
    (language.importsOf (programText program) = sortDistinct
      ((program.filter (·.header.IsFound)).map Declaration.name ++
        (swallowed program).map String.ofList)) ∧
    (language.importsOf (programText program) = sortDistinct (program.map Declaration.name) ↔
      (∀ declaration ∈ program,
        ∃ other ∈ program, other.header.IsFound ∧ other.name = declaration.name) ∧
      program.IsChain fun first second => ¬ Swallows first second) := by
  have hsorted : (language.importsOf (programText program)).Pairwise (· < ·) :=
    pairwise_sortDistinct _
  refine ⟨eq_of_mem_iff hsorted (pairwise_sortDistinct _) fun name => ?_, ?_⟩
  · rw [mem_importsOf_programText hscript, mem_sortDistinct]
    simp [and_assoc]
  constructor
  · intro hexact
    have hmem : ∀ name, name ∈ language.importsOf (programText program) ↔
        ∃ declaration ∈ program, declaration.name = name := fun name => by
      rw [hexact, mem_sortDistinct, List.mem_map]
    constructor
    · intro declaration hdeclaration
      have hname := (hmem declaration.name).mpr ⟨declaration, hdeclaration, rfl⟩
      rcases (mem_importsOf_programText hscript program).mp hname with hfound | ⟨text, htext, hsame⟩
      · exact hfound
      · exact absurd hsame.symm (name_ne_of_mem_swallowed htext declaration)
    · rw [← swallowed_eq_nil_iff]
      refine List.eq_nil_iff_forall_not_mem.mpr fun text htext => ?_
      have hname := (mem_importsOf_programText hscript program).mpr (.inr ⟨text, htext, rfl⟩)
      obtain ⟨declaration, -, hsame⟩ := (hmem _).mp hname
      exact name_ne_of_mem_swallowed htext declaration hsame
  · rintro ⟨hfound, hchain⟩
    rw [← swallowed_eq_nil_iff] at hchain
    refine eq_of_mem_iff hsorted (pairwise_sortDistinct _) fun name => ?_
    rw [mem_importsOf_programText hscript, mem_sortDistinct, List.mem_map, hchain]
    constructor
    · rintro (⟨declaration, hmem, -, hname⟩ | ⟨text, htext, -⟩)
      · exact ⟨declaration, hmem, hname⟩
      · cases htext
    · rintro ⟨declaration, hmem, rfl⟩
      exact .inl (hfound declaration hmem)

/-- `import D, \x7b N \x7d from 'm'`. -/
def defaultAndNamed : Declaration where
  header := .oneAndGroup ⟨⟨[' '], by decide⟩, by decide⟩ ⟨['D'], by decide, by decide⟩
    ⟨[], by decide⟩ ⟨[' '], by decide⟩
    (.braces [⟨⟨[' '], by decide⟩, ⟨['N'], by decide, by decide⟩, ⟨[' '], by decide⟩⟩]
      ⟨[' '], by decide⟩) ⟨[' '], by decide⟩
  mark := ⟨'\x27', by decide⟩
  specifier := ⟨['m'], by decide, by decide, by decide⟩

theorem importsOf_programText_defaultAndNamed :
    programText [defaultAndNamed] = "import D, \x7b N \x7d from 'm'".toList ∧
      [defaultAndNamed].map Declaration.name = ["m"] ∧
      Language.typescript.importsOf (programText [defaultAndNamed]) = [] ∧
      Language.typescript.importsOf (programText [defaultAndNamed]) ≠
        sortDistinct ([defaultAndNamed].map Declaration.name) := by
  obtain ⟨himports, hexact⟩ := importsOf_programText (.inl rfl) [defaultAndNamed]
  have hnothing : sortDistinct [] = [] := sortDistinct_of_pairwise List.Pairwise.nil
  refine ⟨by decide, rfl, himports.trans hnothing, fun hsame => ?_⟩
  obtain ⟨hfound, -⟩ := hexact.mp hsame
  obtain ⟨other, hother, hisFound, -⟩ := hfound defaultAndNamed List.mem_cons_self
  obtain rfl := List.mem_singleton.mp hother
  exact hisFound

end SourceAtlas.Script
