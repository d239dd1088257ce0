import SourceAtlas.Proofs.Dependency.Names
import SourceAtlas.Proofs.Document.Measures
import SourceAtlas.Proofs.Tag.Ranking

/-!
# Files of the same shape

What a scan derives from its files looks at their paths, languages, imports, exports and layers.
Their lengths count for the proposed tags only, and where they lie shows in these tags only.
-/

namespace SourceAtlas

variable {change : SourceFile → SourceFile} {files : List SourceFile}

/-! ## Dependencies -/

/-- The graph of a list of files depends on their paths and imports only. -/
theorem Dependency.graph_map (h : KeepsShape change) (starts : List String)
    (files : List SourceFile) : graph starts (files.map change) = graph starts files := by
  have hresolved : resolvedImports starts (files.map change) = resolvedImports starts files := by
    unfold resolvedImports
    dsimp only
    rw [List.flatMap_map]
    refine List.flatMap_congr fun file _ => ?_
    rw [h.imports, h.path]
    refine List.filterMap_congr fun target _ => ?_
    rw [resolve?_map h.path]
    cases resolve? (files.map namesOf) file.path target with
    | none => rfl
    | some found => simp only [Option.map_some, h.path]
  unfold graph
  rw [hresolved]

/-! ## Proposed tags -/

/-- A ranked file after a change that decides nothing in its rank. -/
def RankedFile.mapFile (change : SourceFile → SourceFile) (ranked : RankedFile) : RankedFile :=
  { ranked with file := change ranked.file }

section Tags

variable (h : KeepsShape change) (hlength : ∀ file, (change file).lineCount = file.lineCount)

include h hlength

theorem Sign.ofFile_map (file : SourceFile) : ofFile (change file) = ofFile file := by
  unfold ofFile
  refine List.filter_congr fun sign _ => ?_
  cases sign <;> simp only [holds, h.path, h.exports, hlength]

theorem RankedFile.best_map (weights : Sign.Weights) (limit : Int) (files : List SourceFile) :
    best weights limit (files.map change) = (best weights limit files).map (mapFile change) := by
  have hcandidate : isCandidate ∘ change = isCandidate := by
    funext file
    rw [Function.comp_apply, isCandidate, isCandidate, h.language, Sign.ofFile_map h hlength]
  have hrank : ofFile weights ∘ change = mapFile change ∘ ofFile weights := by
    funext file
    simp only [Function.comp_apply, ofFile, mapFile, Sign.ofFile_map h hlength]
  unfold best candidates
  rw [List.filter_map, hcandidate, List.map_map, hrank, List.map_take, List.map_mergeSort,
    List.map_map]
  intro first _ second _
  rfl

omit hlength in
theorem InlineTag.domainName?_map (domains : List Domain) (path : String) :
    domainName? (domains.map (Domain.mapFiles change)) path = domainName? domains path := by
  have hcontains : (fun domain : Domain => domain.paths.contains path) ∘ Domain.mapFiles change =
      fun domain => domain.paths.contains path := by
    funext domain
    rw [Function.comp_apply, Domain.paths_mapFiles h]
  unfold domainName?
  rw [List.find?_map, hcontains, Option.map_map]
  rfl

/-- The tags proposed for changed files are the same ones, for the locations of these files. -/
theorem InlineTag.proposals_map (domains : List Domain) (limit : Int)
    (current : SourceFile → Option String) {other : SourceFile → Option String}
    (hcurrent : ∀ file ∈ files, other (change file) = current file) :
    proposals other [] (domains.map (Domain.mapFiles change)) limit (files.map change) =
      (RankedFile.best [] limit files).map fun ranked =>
        { propose current domains ranked with location := (change ranked.file).location } := by
  unfold proposals
  rw [RankedFile.best_map h hlength, List.map_map]
  refine List.map_congr_left fun ranked hranked => ?_
  have hmem : ranked.file ∈ files := by
    have hcandidate := List.mem_mergeSort.mp (List.mem_of_mem_take hranked)
    obtain ⟨file, hfile, -, rfl⟩ := RankedFile.mem_unsorted.mp hcandidate
    exact hfile
  simp only [Function.comp_apply, propose, RankedFile.mapFile, RankedFile.reason, suggestion,
    domainName?_map h, h.path, h.language, h.layer, hcurrent _ hmem]

end Tags

end SourceAtlas
