import SourceAtlas.Listing.Filter
import SourceAtlas.Proofs.Domain.Sources
import SourceAtlas.Proofs.Tag.First
import SourceAtlas.Proofs.Tag.Growth
import SourceAtlas.Proofs.Tag.Ranking
import SourceAtlas.Settings

/-!
# Proposed tags of one line

A proposed tag is put together from a comment start, the name of a domain, a layer and signs. Domains
are named after parts of paths, and a line break in such a part gets into the tag: then the tag that
is found in the proposed text is only the first line of it.
-/

namespace SourceAtlas

open Text

namespace Tag

/-- A text that begins like a tag is found in full exactly if it is one line. -/
theorem find?_eq_self_iff {start label : List Char} (hstart : IsStart start) :
    find? (start ++ label) = some (start ++ label) ↔ IsOneLine (start ++ label) := by
  constructor
  · intro hfind
    obtain ⟨cut, hcut, htag⟩ := Option.map_eq_some_iff.mp hfind
    have hline := (isFirstTagOf_of_cut? hcut).isTagLine.isBreak
    rwa [htag] at hline
  · intro hline
    have htag : IsTagLine (start ++ label) :=
      ⟨start, label, hstart, (isOneLine_append.mp hline).2, rfl⟩
    have hends : EndsLine [] := nofun
    have hfind := find?_of_tag htag hends
    rwa [List.append_nil] at hfind

end Tag

/-! ## The parts of a proposal -/

theorem isOneLine_layer (path : String) : IsOneLine (Layer.ofPath path).name.toList := by
  have hall : ∀ layer ∈ Layer.other :: Layer.withDirectory, IsOneLine layer.name.toList := by decide
  exact hall _ (Layer.ofPath_mem path)

namespace InlineTag

theorem isOneLine_labels {name : String} {layer : Layer} :
    (IsOneLine (placeLabel (some name) layer).toList ∧ IsOneLine (layerLabel layer).toList) ↔
      IsOneLine name.toList ∧ IsOneLine layer.name.toList := by
  have hlayer : IsOneLine (layerLabel layer).toList ↔ IsOneLine layer.name.toList := by
    unfold layerLabel
    split
    · next h => rw [h]; decide
    · have hopen : IsOneLine " (".toList := by decide
      have hclose : IsOneLine ")".toList := by decide
      rw [String.toList_append, String.toList_append, isOneLine_append, isOneLine_append,
        and_iff_right hopen, and_iff_left hclose]
  rw [hlayer]
  refine and_congr_left fun hline => ?_
  unfold placeLabel
  dsimp only
  split
  · next hempty =>
    have hname : name = "" := String.isEmpty_iff.mp hempty
    rw [hname]
    exact iff_of_true hline nofun
  · exact Iff.rfl

/-- A proposed text is one line exactly if the name of the domain and that of the layer are. -/
theorem isOneLine_suggestion (file : SourceFile) (name : String) (signs : List Sign) :
    IsOneLine (suggestion file (some name) (", ".intercalate (signs.map Sign.name))).toList ↔
      IsOneLine name.toList ∧ IsOneLine file.layer.name.toList := by
  have hcomment : IsOneLine (file.language.lineComment?.getD "//").toList := by
    rcases lineComment_cases file.language with h | h <;> rw [h] <;> decide
  have hspace : IsOneLine " ".toList := by decide
  have hmarker : IsOneLine Tag.marker.toList := by decide
  have hdash : IsOneLine " - ".toList := by decide
  unfold suggestion
  simp only [String.toList_append, isOneLine_append, isOneLine_signs, hcomment, hspace, hmarker,
    hdash, true_and, and_true]
  exact isOneLine_labels

theorem exists_of_mem_proposals {current : SourceFile → Option String} {weights : Sign.Weights}
    {domains : List Domain} {limit : Int} {files : List SourceFile} {tag : InlineTag}
    (h : tag ∈ proposals current weights domains limit files) :
    ∃ file ∈ files, tag = propose current domains (RankedFile.ofFile weights file) := by
  obtain ⟨ranked, hranked, rfl⟩ := List.mem_map.mp h
  have hcandidate := List.mem_mergeSort.mp (List.mem_of_mem_take hranked)
  obtain ⟨file, hfile, -, rfl⟩ := RankedFile.mem_unsorted.mp hcandidate
  exact ⟨file, hfile, rfl⟩

/-- A proposed tag is one line, and is found in its own text, exactly if neither what the domain of
its file is named after nor the layer of the file has a line break. So it is if no path has one and
the layers are those of the paths. -/
theorem proposal_isOneLine_iff {current : SourceFile → Option String} {weights : Sign.Weights}
    {threshold : Number.Binary64} {sensitivity : Sensitivity} {limit : Int}
    {files : List SourceFile} {tag : InlineTag}
    (h : tag ∈ proposals current weights (Domain.infer threshold sensitivity files) limit files) :
    ∃ file ∈ files, ∃ text, tag.path = file.path ∧ tag.suggested = .ofList text ∧
      (IsOneLine text ↔
        IsOneLine (Domain.namedAfter threshold sensitivity files file.path).toList ∧
          IsOneLine file.layer.name.toList) ∧
      (Tag.find? text = some text ↔ IsOneLine text) ∧
      ((∀ other ∈ files, IsOneLine other.path.toList ∧ other.layer = .ofPath other.path) →
        IsOneLine text ∧ Tag.find? text = some text) := by
  obtain ⟨file, hfile, rfl⟩ := exists_of_mem_proposals h
  have hname := Domain.domainName?_infer threshold sensitivity hfile
  obtain ⟨start, label, hstart, htext⟩ := exists_isStart file
    (some (titleCase (Domain.namedAfter threshold sensitivity files file.path)))
    (RankedFile.ofFile weights file).reason
  have hline := isOneLine_suggestion file
    (titleCase (Domain.namedAfter threshold sensitivity files file.path)) (Sign.ofFile file)
  have hreason : ", ".intercalate ((Sign.ofFile file).map Sign.name) =
      (RankedFile.ofFile weights file).reason := by
    simp only [RankedFile.reason, RankedFile.ofFile]
  rw [isOneLine_titleCase, hreason] at hline
  have hfind : Tag.find? (start ++ label) = some (start ++ label) ↔ IsOneLine (start ++ label) :=
    Tag.find?_eq_self_iff hstart
  rw [htext] at hline
  refine ⟨file, hfile, start ++ label, rfl, ?_, hline, hfind, fun hfiles => ?_⟩
  · rw [← htext, ← hname]
    rfl
  · have hlayer : IsOneLine file.layer.name.toList := by
      rw [(hfiles file hfile).2]
      exact isOneLine_layer file.path
    have hnamed : IsOneLine (Domain.namedAfter threshold sensitivity files file.path).toList :=
      Domain.isOneLine_namedAfter (fun other hother => (hfiles other hother).1) (hfiles file hfile).1
    have hall := hline.mpr ⟨hnamed, hlayer⟩
    exact ⟨hall, hfind.mpr hall⟩

/-- The only file of a directory that has a line break in its name. -/
def brokenFile : SourceFile where
  path := "a\nb/index.ts"
  location := "/p/a\nb/index.ts"
  language := .typescript
  lineCount := 2
  sizeBytes := 11

/-- The file is listed, and the tag that is proposed for it spreads over two lines. -/
theorem proposal_isOneLine_iff_broken :
    Listing.accepts [] brokenFile.path = true ∧
      ∃ tag ∈ proposals (fun _ => none) [] (Domain.infer Settings.standard.threshold .medium
          [brokenFile]) 1 [brokenFile],
        ∃ text, tag.suggested = .ofList text ∧ ¬ IsOneLine text ∧ Tag.find? text ≠ some text := by
  -- The ranking is sorted, which does not reduce, so the file is shown to be among the best.
  have hbest : RankedFile.ofFile [] brokenFile ∈ RankedFile.best [] 1 [brokenFile] := by
    have hcandidate : RankedFile.isCandidate brokenFile = true := by decide +kernel
    have hfew : [brokenFile].countP (RankedFile.goesBefore [] · brokenFile) < Int.toNat 1 := by
      decide +kernel
    rw [RankedFile.mem_best (List.pairwise_singleton _ _)]
    exact ⟨brokenFile, List.mem_cons_self, hcandidate, rfl, hfew⟩
  have hproposed : propose (fun _ => none) (Domain.infer Settings.standard.threshold .medium
      [brokenFile]) (RankedFile.ofFile [] brokenFile) ∈ proposals (fun _ => none) []
        (Domain.infer Settings.standard.threshold .medium [brokenFile]) 1 [brokenFile] :=
    List.mem_map_of_mem hbest
  obtain ⟨file, hfile, text, -, htext, hline, hfind, -⟩ := proposal_isOneLine_iff hproposed
  obtain rfl := List.mem_singleton.mp hfile
  have hbroken : ¬ IsOneLine text := by
    rw [hline]
    decide +kernel
  exact ⟨by decide +kernel, _, hproposed, text, htext, hbroken, hfind.not.mpr hbroken⟩

end InlineTag

end SourceAtlas
