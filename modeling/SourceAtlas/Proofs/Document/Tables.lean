import SourceAtlas.Proofs.Document.Reading
import SourceAtlas.Proofs.Number.Digits

/-!
# The tables of the index

A row of a file is read back if its texts have no vertical bar and no line feed. So the reader finds
in the section of a domain one table with a row for each file, and none in the lines before the
sections.
-/

namespace SourceAtlas.IndexReader

open Text

variable {file : SourceFile} {files : List SourceFile} {heading name line : String}
  {rows : List Row} {rest : List String}

/-! ## One row -/

/-- What the row of a file tells. -/
def rowOf (file : SourceFile) : Row := ⟨file.path, file.layer.name, file.lineCount⟩

/-- The row of a file whose layer is read off its path is plain exactly if its path has no vertical
bar and no line feed. -/
theorem isPlain_rowOf_iff (h : file.layer = .ofPath file.path) :
    (rowOf file).IsPlain ↔ '|' ∉ file.path.toList ∧ '\n' ∉ file.path.toList := by
  have hlayers : ∀ layer ∈ Layer.other :: Layer.withDirectory,
      ('|' ∉ layer.name.toList ∧ '\n' ∉ layer.name.toList) ∧
        layer.name.toList.head? ≠ some ' ' ∧ layer.name.toList.getLast? ≠ some ' ' := by decide
  obtain ⟨hlayer, htrimmed⟩ := hlayers _ (Layer.ofPath_mem file.path)
  rw [← h] at hlayer htrimmed
  exact ⟨fun hplain => hplain.path, fun hpath => ⟨hpath, hlayer, htrimmed⟩⟩

theorem dropWhile_blank {text : List Char} (h : text.head? ≠ some ' ') :
    text.dropWhile (· == ' ') = text := by
  cases text with
  | nil => rfl
  | cons c text =>
      have hc : c ≠ ' ' := fun hsame => h (by rw [hsame]; rfl)
      simp [hc]

/-- A text between blanks. -/
def padded (text : List Char) : List Char := ' ' :: (text ++ [' '])

/-- A padded text that neither starts nor ends with a blank is trimmed to itself. -/
theorem trim_padded {text : List Char} (hhead : text.head? ≠ some ' ')
    (hlast : text.getLast? ≠ some ' ') : trim (padded text) = text := by
  have hback : text.reverse.head? ≠ some ' ' := by rwa [List.head?_reverse]
  unfold trim padded
  cases text with
  | nil => rfl
  | cons c text =>
      have hfront : ((c :: text) ++ [' ']).head? ≠ some ' ' := by simpa using hhead
      rw [List.dropWhile_cons_of_pos (by decide), dropWhile_blank hfront, List.reverse_append,
        List.reverse_singleton, List.singleton_append, List.dropWhile_cons_of_pos (by decide),
        dropWhile_blank hback, List.reverse_reverse]

theorem unquote?_code (text : String) : unquote? (Page.code text).toList = some text.toList := by
  unfold unquote? Page.code
  rw [String.toList_append, String.toList_append, List.append_assoc,
    dropStart?_eq_some_iff.mpr rfl]
  exact dropEnd?_eq_some_iff.mpr rfl

theorem toList_row (first second third : String) : (Page.row [first, second, third]).toList =
    [] ++ '|' :: (padded first.toList ++ '|' :: (padded second.toList ++
      '|' :: (padded third.toList ++ '|' :: []))) := by
  simp [Page.row, padded, String.intercalate_cons_cons]

theorem bar_not_mem_padded {text : List Char} (h : '|' ∉ text) : '|' ∉ padded text := by
  simp [padded, h]

/-- Three cells without vertical bars are told apart. -/
theorem split_row {first second third : String} (hfirst : '|' ∉ first.toList)
    (hsecond : '|' ∉ second.toList) (hthird : '|' ∉ third.toList) :
    split '|' (Page.row [first, second, third]).toList =
      [[], padded first.toList, padded second.toList, padded third.toList, []] := by
  rw [toList_row, split_append_sep List.not_mem_nil, split_append_sep (bar_not_mem_padded hfirst),
    split_append_sep (bar_not_mem_padded hsecond), split_append_sep (bar_not_mem_padded hthird),
    split_nil]

theorem toList_toString (n : Nat) : (toString n).toList = Nat.toDigits 10 n := by simp

theorem readNumber?_toString (n : Nat) : readNumber? (toString n).toList = some n := by
  have hdigits : (Nat.toDigits 10 n).all Char.isDigit = true :=
    List.all_eq_true.mpr Number.isDigit_toDigits
  have hsome : (Nat.toDigits 10 n).isEmpty = false := by simp [Nat.toDigits_ne_nil]
  unfold readNumber?
  rw [toList_toString, hdigits, hsome, Nat.ofDigitChars_ten_toDigits]
  rfl

theorem not_mem_toString {c : Char} (hc : c.isDigit = false) (n : Nat) :
    c ∉ (toString n).toList := by
  rw [toList_toString]
  intro hmem
  rw [Number.isDigit_toDigits c hmem] at hc
  cases hc

/-- A plain row is read back. -/
theorem readRow?_fileRow (h : (rowOf file).IsPlain) :
    readRow? (Page.fileRow file) = some (rowOf file) := by
  have hpath : '|' ∉ file.path.toList := h.path.1
  have hcells : split '|' (Page.fileRow file).toList = [[], padded (Page.code file.path).toList,
      padded file.layer.name.toList, padded (toString file.lineCount).toList, []] :=
    split_row (by simp [Page.code, hpath]) h.layer.1 (not_mem_toString rfl _)
  have hcode : trim (padded (Page.code file.path).toList) = (Page.code file.path).toList := by
    refine trim_padded (by simp [Page.code]) ?_
    rw [Page.code, String.toList_append, List.getLast?_append]
    simp
  have hlayer : trim (padded file.layer.name.toList) = file.layer.name.toList :=
    trim_padded h.trimmed.1 h.trimmed.2
  have hblank := not_mem_toString (c := ' ') rfl file.lineCount
  have hcount : trim (padded (toString file.lineCount).toList) = (toString file.lineCount).toList :=
    trim_padded (fun hc => hblank (List.mem_of_mem_head? hc))
      fun hc => hblank (List.mem_of_getLast? hc)
  unfold readRow?
  rw [hcells]
  dsimp only
  rw [hcode, unquote?_code, hlayer, hcount, readNumber?_toString]
  simp [rowOf]

/-! ## Lines -/

/-- The reader passes over a line outside of a table. -/
def IsPassed (line : String) : Prop := line ≠ rule ∧ dropStart? "## ".toList line.toList = none

theorem readLines_passed (h : IsPassed line) :
    readLines heading none (line :: rest) = readLines heading none rest := by
  rw [readLines, if_neg h.1, h.2]

theorem readLines_heading (heading name : String) (rest : List String) :
    readLines heading none (("## " ++ name) :: rest) = readLines name none rest := by
  have hrule : "## " ++ name ≠ rule := by
    intro hsame
    have hlist := congrArg String.toList hsame
    rw [String.toList_append] at hlist
    cases hlist
  have hstart : dropStart? "## ".toList ("## " ++ name).toList = some name.toList :=
    dropStart?_eq_some_iff.mpr String.toList_append
  rw [readLines, if_neg hrule, hstart]
  dsimp only
  rw [String.ofList_toList]

theorem readLines_rule (heading : String) (rest : List String) :
    readLines heading none (rule :: rest) = readLines heading (some []) rest := by
  rw [readLines, if_pos rfl]

theorem fileRow_ne_empty (file : SourceFile) : Page.fileRow file ≠ "" := by
  intro hsame
  have hlist := congrArg String.toList hsame
  rw [Page.fileRow, toList_row] at hlist
  cases hlist

/-- The rows of a table are read up to the empty line behind them. -/
theorem readLines_rows (h : ∀ file ∈ files, (rowOf file).IsPlain) (heading : String) (rows : List Row)
    (rest : List String) :
    readLines heading (some rows) (files.map Page.fileRow ++ "" :: rest) =
      (readLines heading none rest).map (⟨heading, rows ++ files.map rowOf⟩ :: ·) := by
  induction files generalizing rows with
  | nil => simp [readLines]
  | cons file files ih =>
      rw [List.forall_mem_cons] at h
      rw [List.map_cons, List.cons_append, readLines, if_neg (fileRow_ne_empty file),
        readRow?_fileRow h.1, Option.bind_some, ih h.2]
      simp

/-- A line is passed over if it starts neither a heading nor a row. -/
theorem isPassed_of_head {c : Char} (hline : line.toList.head? = some c) (hheading : c ≠ '#')
    (hbar : c ≠ '|') : IsPassed line := by
  constructor
  · rintro rfl
    cases hline
    exact hbar rfl
  · cases hlist : line.toList with
    | nil => rfl
    | cons d chars =>
        rw [hlist, List.head?_cons, Option.some.injEq] at hline
        subst hline
        exact if_neg hheading

theorem isPassed_empty : IsPassed "" := ⟨by decide, rfl⟩

theorem isPassed_entrypoint (file : SourceFile) : IsPassed (Page.entrypointLine file) := by
  have hhead : (Page.entrypointLine file).toList.head? = some '-' := by
    simp [Page.entrypointLine]
  exact isPassed_of_head hhead (by decide) (by decide)

theorem isPassed_channels (channels : String) : IsPassed ("IPC: " ++ Page.code channels) := by
  have hhead : ("IPC: " ++ Page.code channels).toList.head? = some 'I' := by simp
  exact isPassed_of_head hhead (by decide) (by decide)

theorem isPassed_head : IsPassed (Page.row ["File", "Layer", "Lines"]) := ⟨by decide, rfl⟩

/-- The table of a domain. -/
def tableOf (domain : Domain) : Table :=
  ⟨domain.name, (Page.sortedFiles domain.files).map rowOf⟩

/-- The section of a domain is read as its table. -/
theorem readLines_section {domain : Domain} (h : ∀ file ∈ domain.files, (rowOf file).IsPlain)
    (heading : String) (rest : List String) :
    readLines heading none (Page.sectionLines domain ++ rest) =
      (readLines domain.name none rest).map (tableOf domain :: ·) := by
  have hsorted : ∀ file ∈ Page.sortedFiles domain.files, (rowOf file).IsPlain := fun file hfile =>
    h file (List.mem_mergeSort.mp hfile)
  have htable : ∀ rest, readLines domain.name none (Page.row ["File", "Layer", "Lines"] :: rule ::
      ((Page.sortedFiles domain.files).map Page.fileRow ++ "" :: rest)) =
        (readLines domain.name none rest).map (tableOf domain :: ·) := by
    intro rest
    rw [readLines_passed isPassed_head, readLines_rule, readLines_rows hsorted]
    rfl
  unfold Page.sectionLines
  cases Page.nonEmpty? domain.channels with
  | none =>
      simp only [List.append_nil, List.cons_append, List.nil_append, List.append_assoc]
      rw [readLines_heading, readLines_passed isPassed_empty]
      exact htable rest
  | some channels =>
      simp only [List.cons_append, List.nil_append, List.append_assoc]
      rw [readLines_heading, readLines_passed isPassed_empty,
        readLines_passed (isPassed_channels channels), readLines_passed isPassed_empty]
      exact htable rest

/-- The sections of domains are read one after the other. -/
theorem readLines_sections {domains : List Domain}
    (h : ∀ domain ∈ domains, ∀ file ∈ domain.files, (rowOf file).IsPlain) (heading : String) :
    readLines heading none (domains.flatMap Page.sectionLines ++ [""]) =
      some (domains.map tableOf) := by
  induction domains generalizing heading with
  | nil => rw [List.flatMap_nil, List.nil_append, readLines_passed isPassed_empty]; rfl
  | cons domain domains ih =>
      rw [List.forall_mem_cons] at h
      rw [List.flatMap_cons, List.append_assoc, readLines_section h.1, ih h.2]
      rfl

theorem readLines_passedAll {lines : List String} (h : ∀ line ∈ lines, IsPassed line)
    (heading : String) (rest : List String) :
    readLines heading none (lines ++ rest) = readLines heading none rest := by
  induction lines with
  | nil => rfl
  | cons line lines ih =>
      rw [List.forall_mem_cons] at h
      rw [List.cons_append, readLines_passed h.1, ih h.2]

/-- The section of the entrypoints holds no table. -/
theorem exists_readLines_entrypoints (files : List SourceFile) (heading : String)
    (rest : List String) : ∃ name,
      readLines heading none (Page.entrypointLines files ++ rest) = readLines name none rest := by
  unfold Page.entrypointLines
  cases Summary.entrypoints files with
  | nil => exact ⟨heading, rfl⟩
  | cons file found =>
      have hlines : ∀ line ∈ (file :: found).map Page.entrypointLine ++ [""], IsPassed line := by
        intro line hline
        rcases List.mem_append.mp hline with hfile | hlast
        · obtain ⟨file, -, rfl⟩ := List.mem_map.mp hfile
          exact isPassed_entrypoint file
        · rw [List.mem_singleton.mp hlast]
          exact isPassed_empty
      refine ⟨"Entrypoints", ?_⟩
      rw [List.append_assoc, List.append_assoc]
      change readLines heading none (("## " ++ "Entrypoints") :: "" :: _) = _
      rw [readLines_heading, readLines_passed isPassed_empty, ← List.append_assoc]
      exact readLines_passedAll hlines "Entrypoints" rest

theorem isPassed_figures (summary : Summary) (label : String) :
    IsPassed (Page.figures summary label) := by
  have hsome : (toString summary.totalFiles).toList ≠ [] := by
    rcases Int.lt_or_le summary.totalFiles 0 with hneg | hpos
    · rw [Number.toList_toString_of_neg hneg]
      exact List.cons_ne_nil _ _
    · rw [Number.toList_toString_of_nonneg hpos]
      exact Nat.toDigits_ne_nil
  obtain ⟨c, chars, hdigits⟩ := List.exists_cons_of_ne_nil hsome
  have hnumeric := Number.isNumeric_of_mem_toString c (hdigits ▸ List.mem_cons_self)
  have hhead : (Page.figures summary label).toList.head? = some c := by
    simp only [Page.figures, String.toList_append, hdigits, List.cons_append, List.head?_cons]
  refine isPassed_of_head hhead ?_ ?_
  · rintro rfl
    exact absurd hnumeric.bounds (by decide)
  · rintro rfl
    exact absurd hnumeric.bounds (by decide)

end SourceAtlas.IndexReader
