import SourceAtlas.Document.Page
import SourceAtlas.Proofs.Path.Name

/-!
# Reading the index

A reader of the file index that knows the layout of the index and nothing about the project but its
name: lines end at line feeds, a heading names the table below it, and a row is a line of three cells
between vertical bars. What it reads from a row has neither a vertical bar nor a line feed in it.
-/

namespace SourceAtlas.IndexReader

open Text

/-- What a row tells about a file. -/
structure Row where
  path : String
  layer : String
  lineCount : Nat
  deriving DecidableEq, Repr

/-- A row that a line of cells can hold: its texts have no vertical bar and no line feed, and no blank
pads the name of the layer. -/
structure Row.IsPlain (row : Row) : Prop where
  path : '|' ∉ row.path.toList ∧ '\n' ∉ row.path.toList
  layer : '|' ∉ row.layer.toList ∧ '\n' ∉ row.layer.toList
  trimmed : row.layer.toList.head? ≠ some ' ' ∧ row.layer.toList.getLast? ≠ some ' '

/-- A heading and the rows of the table below it. -/
structure Table where
  heading : String
  rows : List Row
  deriving DecidableEq, Repr

/-- A cell without the blanks around it. -/
def trim (cell : List Char) : List Char :=
  ((cell.dropWhile (· == ' ')).reverse.dropWhile (· == ' ')).reverse

/-- A text without the back quotes around it. -/
def unquote? (text : List Char) : Option (List Char) :=
  (dropStart? "`".toList text).bind (dropEnd? "`".toList)

/-- Read a decimal number. -/
def readNumber? (digits : List Char) : Option Nat :=
  if digits.isEmpty || !digits.all Char.isDigit then none
  else some (Nat.ofDigitChars 10 digits 0)

/-- Read a row: three cells between vertical bars, the first one in back quotes. -/
def readRow? (line : String) : Option Row :=
  match split '|' line.toList with
  | [[], path, layer, lineCount, []] => do
      let path ← unquote? (trim path)
      let lineCount ← readNumber? (trim lineCount)
      return ⟨String.ofList path, String.ofList (trim layer), lineCount⟩
  | _ => none

/-- The line between the head of a table and its rows. -/
def rule : String := "|------|-------|-------|"

/-- Read the lines below a heading, or the rest of a table of which some rows are read. An empty line
ends a table. -/
def readLines (heading : String) : Option (List Row) → List String → Option (List Table)
  | none, [] => some []
  | none, line :: rest =>
      if line = rule then readLines heading (some []) rest
      else
        match dropStart? "## ".toList line.toList with
        | some name => readLines (String.ofList name) none rest
        | none => readLines heading none rest
  | some _, [] => none
  | some rows, line :: rest =>
      if line = "" then (readLines heading none rest).map (⟨heading, rows⟩ :: ·)
      else (readRow? line).bind fun row => readLines heading (some (rows ++ [row])) rest

/-- The title of an index. -/
def title (project : String) : String := "# " ++ project ++ " - Repo Index\n"

/-- Read the index of a project. -/
def read (project text : String) : Option (List Table) :=
  (dropStart? (title project).toList text.toList).bind fun body =>
    readLines "" none ((split '\n' body).map String.ofList)

/-! ## What can be read from lines -/

variable {heading line : String} {row : Row} {rows : List Row} {begun : Option (List Row)}
  {lines : List String} {tables : List Table} {table : Table} {c : Char}

theorem mem_of_mem_trim {cell : List Char} (h : c ∈ trim cell) : c ∈ cell := by
  have hback := List.dropWhile_subset _ (List.mem_reverse.mp h)
  exact List.dropWhile_subset _ (List.mem_reverse.mp hback)

theorem mem_of_mem_unquote? {text inner : List Char} (h : unquote? text = some inner)
    (hc : c ∈ inner) : c ∈ text := by
  obtain ⟨front, hfront, hback⟩ := Option.bind_eq_some_iff.mp h
  rw [dropStart?_eq_some_iff.mp hfront, dropEnd?_eq_some_iff.mp hback]
  simp [hc]

/-- No blank is left at the ends of a trimmed cell. -/
theorem ends_trim (cell : List Char) :
    (trim cell).head? ≠ some ' ' ∧ (trim cell).getLast? ≠ some ' ' := by
  have hstart : ∀ text : List Char, (text.dropWhile (· == ' ')).head? ≠ some ' ' := by
    intro text hblank
    have hnot := List.head?_dropWhile_not (· == ' ') text
    rw [hblank] at hnot
    cases hnot
  refine ⟨fun hblank => ?_, fun hblank => ?_⟩
  · have hfront : trim cell <+: cell.dropWhile (· == ' ') := by
      rw [← List.reverse_suffix, trim, List.reverse_reverse]
      exact List.dropWhile_suffix _
    obtain ⟨rest, hsplit⟩ := hfront
    refine hstart cell ?_
    rw [← hsplit, List.head?_append, hblank]
    rfl
  · rw [trim, List.getLast?_reverse] at hblank
    exact hstart _ hblank

/-- The path in a row is a part of a cell, the layer is all of one. -/
theorem cells_of_readRow? (h : readRow? line = some row) :
    (∃ cell ∈ split '|' line.toList, ∀ c ∈ row.path.toList, c ∈ cell) ∧
      ∃ cell ∈ split '|' line.toList, row.layer.toList = trim cell := by
  unfold readRow? at h
  split at h
  · next path layer lineCount hsplit =>
      obtain ⟨inner, hinner, h⟩ := Option.bind_eq_some_iff.mp h
      obtain ⟨count, -, h⟩ := Option.bind_eq_some_iff.mp h
      cases h
      refine ⟨⟨path, by simp [hsplit], fun c hc => ?_⟩, layer, by simp [hsplit],
        String.toList_ofList⟩
      rw [String.toList_ofList] at hc
      exact mem_of_mem_trim (mem_of_mem_unquote? hinner hc)
  · cases h

/-- Every row of a table stands in a line, unless it was read before. -/
theorem exists_line_of_readLines (h : readLines heading begun lines = some tables)
    (htable : table ∈ tables) (hrow : row ∈ table.rows) :
    row ∈ begun.getD [] ∨ ∃ line ∈ lines, readRow? line = some row := by
  induction lines generalizing heading begun tables with
  | nil =>
      cases begun with
      | none =>
          cases h
          cases htable
      | some rows => cases h
  | cons line rest ih =>
      cases begun with
      | none =>
          rw [readLines] at h
          have hlater : ∀ {name begun}, readLines name begun rest = some tables →
              begun.getD [] = [] → row ∈ (none : Option (List Row)).getD [] ∨
                ∃ other ∈ line :: rest, readRow? other = some row := by
            intro name begun hread hnone
            rcases ih hread htable with hbegun | ⟨other, hother, hread⟩
            · rw [hnone] at hbegun
              cases hbegun
            · exact .inr ⟨other, List.mem_cons_of_mem _ hother, hread⟩
          split at h
          · exact hlater h rfl
          · split at h
            · exact hlater h rfl
            · exact hlater h rfl
      | some rows =>
          rw [readLines] at h
          split at h
          · obtain ⟨later, hlater, rfl⟩ := Option.map_eq_some_iff.mp h
            rcases List.mem_cons.mp htable with rfl | hin
            · exact .inl hrow
            · rcases ih hlater hin with hbegun | ⟨other, hother, hread⟩
              · cases hbegun
              · exact .inr ⟨other, List.mem_cons_of_mem _ hother, hread⟩
          · obtain ⟨first, hfirst, hrest⟩ := Option.bind_eq_some_iff.mp h
            rcases ih hrest htable with hbegun | ⟨other, hother, hread⟩
            · rcases List.mem_append.mp hbegun with hrows | hsame
              · exact .inl hrows
              · obtain rfl := List.mem_singleton.mp hsame
                exact .inr ⟨line, List.mem_cons_self, hfirst⟩
            · exact .inr ⟨other, List.mem_cons_of_mem _ hother, hread⟩

/-- Every row that is read from an index is plain. -/
theorem isPlain_of_read {project text : String} (h : read project text = some tables)
    (htable : table ∈ tables) (hrow : row ∈ table.rows) : row.IsPlain := by
  obtain ⟨body, -, hlines⟩ := Option.bind_eq_some_iff.mp h
  rcases exists_line_of_readLines hlines htable hrow with hnone | ⟨line, hline, hread⟩
  · cases hnone
  · obtain ⟨part, hpart, rfl⟩ := List.mem_map.mp hline
    have hcell : ∀ {cell}, cell ∈ split '|' part → '|' ∉ cell ∧ '\n' ∉ cell := fun hcell =>
      ⟨not_mem_of_mem_split hcell,
        fun hfeed => not_mem_of_mem_split hpart (mem_of_mem_split hcell hfeed)⟩
    obtain ⟨⟨first, hfirst, hpath⟩, second, hsecond, hlayer⟩ := cells_of_readRow? hread
    rw [String.toList_ofList] at hfirst hsecond
    refine ⟨⟨fun hbar => ?_, fun hfeed => ?_⟩, ⟨fun hbar => ?_, fun hfeed => ?_⟩, ?_⟩
    · exact (hcell hfirst).1 (hpath _ hbar)
    · exact (hcell hfirst).2 (hpath _ hfeed)
    · exact (hcell hsecond).1 (mem_of_mem_trim (hlayer ▸ hbar))
    · exact (hcell hsecond).2 (mem_of_mem_trim (hlayer ▸ hfeed))
    · rw [hlayer]
      exact ends_trim second

end SourceAtlas.IndexReader
