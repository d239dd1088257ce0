import SourceAtlas.Proofs.Document.Measures
import SourceAtlas.Proofs.Text.Breaks

/-!
# Lengths in documents

How many lines a document has does not depend on the lengths of the files that it shows, and a
document of files of the same lengths is the same document, whatever their sizes.
-/

namespace SourceAtlas.Page

open Text

variable {change : SourceFile → SourceFile} {settings : Settings}

theorem totalFiles_map (settings : Settings) (files : List SourceFile) :
    (Summary.ofFiles settings (files.map change)).totalFiles =
      (Summary.ofFiles settings files).totalFiles := by
  simp [Summary.ofFiles]

theorem length_domains_map (h : KeepsShape change) (settings : Settings)
    (files : List SourceFile) :
    (Summary.ofFiles settings (files.map change)).domains.length =
      (Summary.ofFiles settings files).domains.length := by
  change (Domain.infer _ _ (files.map change)).length = _
  rw [Domain.infer_map h, List.length_map]
  rfl

theorem alike_toString (n m : Nat) : AlikeStrings (toString n) (toString m) :=
  (isSolid_toString n).isAlike (isSolid_toString m)

/-- Lines that show other lengths are alike. -/
theorem showsLengths_alike (h : KeepsShape change) (settings : Settings)
    (files : List SourceFile) : ShowsLengths AlikeStrings change settings files where
  same := AlikeStrings.refl
  figures label := by
    have hlines : AlikeStrings
        (thousands (Summary.ofFiles settings (files.map change)).totalLines)
        (thousands (Summary.ofFiles settings files).totalLines) :=
      (isSolid_thousands _).isAlike (isSolid_thousands _)
    unfold figures
    rw [totalFiles_map, length_domains_map h]
    exact ((((AlikeStrings.refl _).append hlines).append (.refl _)).append (.refl _)).append
      (.refl _)
  entrypoint file := by
    unfold entrypointLine
    rw [h.path, h.layer]
    exact ((AlikeStrings.refl _).append (alike_toString _ _)).append (.refl _)
  row file := by
    have hcells : ∀ first second third : String, row [first, second, third] =
        "| " ++ (first ++ (" | " ++ (second ++ (" | " ++ third)))) ++ " |" := by
      intro first second third
      simp [row, String.intercalate_cons_cons, String.append_assoc]
    unfold fileRow
    rw [h.path, h.layer, hcells, hcells]
    refine ((AlikeStrings.refl _).append ?_).append (.refl _)
    exact (AlikeStrings.refl _).append ((AlikeStrings.refl _).append
      ((AlikeStrings.refl _).append ((AlikeStrings.refl _).append (alike_toString _ _))))

/-- The number of lines of a document does not depend on the lengths of files. -/
theorem lineCount_text_map (h : KeepsShape change) (settings : Settings) (page : Page)
    (project : String) (files : List SourceFile) :
    lineCount (translateNewlines (page.text project (.ofFiles settings (files.map change))).toList) =
      lineCount (translateNewlines (page.text project (.ofFiles settings files)).toList) := by
  have hlines := showsLengths_alike h settings files
  cases page with
  | overview =>
      exact (AlikeStrings.join (overviewLines_map h hlines project) "\n").lineCount_eq
  | index =>
      exact (AlikeStrings.join (indexLines_map h hlines project) "\n").lineCount_eq

theorem totalLineCount_map (hlength : ∀ file, (change file).lineCount = file.lineCount)
    (files : List SourceFile) : totalLineCount (files.map change) = totalLineCount files := by
  unfold totalLineCount
  rw [List.foldr_map]
  simp only [hlength]

/-- Files of the same lengths make the same document. -/
theorem text_map (h : KeepsShape change)
    (hlength : ∀ file, (change file).lineCount = file.lineCount) (settings : Settings)
    (page : Page) (project : String) (files : List SourceFile) :
    page.text project (.ofFiles settings (files.map change)) =
      page.text project (.ofFiles settings files) := by
  have hlines : ShowsLengths Eq change settings files := by
    refine ⟨fun _ => rfl, fun label => ?_, fun file => ?_, fun file => ?_⟩
    · have htotal : (Summary.ofFiles settings (files.map change)).totalLines =
          (Summary.ofFiles settings files).totalLines :=
        congrArg Int.ofNat (totalLineCount_map hlength files)
      unfold figures
      rw [totalFiles_map, length_domains_map h, htotal]
    · unfold entrypointLine
      rw [h.path, h.layer, hlength]
    · unfold fileRow
      rw [h.path, h.layer, hlength]
  cases page with
  | overview =>
      have hsame := overviewLines_map h hlines project
      rw [List.forall₂_eq_eq_eq] at hsame
      exact congrArg unlines hsame
  | index =>
      have hsame := indexLines_map h hlines project
      rw [List.forall₂_eq_eq_eq] at hsame
      exact congrArg unlines hsame

end SourceAtlas.Page
