import Mathlib.Data.List.Forall2
import SourceAtlas.Domain.Inference
import SourceAtlas.Scan.Scan

/-!
# Documents of measured files

The length of a file is shown in the documents and decides nothing else in them. So documents of the
same files, with other lengths, have the same lines up to the numbers in them.
-/

namespace SourceAtlas

/-- A change of files that keeps everything but their lengths. -/
structure KeepsShape (change : SourceFile → SourceFile) : Prop where
  path : ∀ file, (change file).path = file.path
  language : ∀ file, (change file).language = file.language
  imports : ∀ file, (change file).imports = file.imports
  exports : ∀ file, (change file).exports = file.exports
  layer : ∀ file, (change file).layer = file.layer

variable {change : SourceFile → SourceFile} {files : List SourceFile} {settings : Settings}

theorem groupByKey_map {α κ : Type} [DecidableEq κ] (key : α → κ) (f : α → α)
    (h : ∀ x, key (f x) = key x) (xs : List α) :
    groupByKey key (xs.map f) = (groupByKey key xs).map fun group => (group.1, group.2.map f) := by
  have hkey : key ∘ f = key := funext h
  unfold groupByKey
  rw [List.map_map, List.map_map, hkey]
  refine List.map_congr_left fun k _ => ?_
  rw [List.filter_map]
  congr 2
  refine List.filter_congr fun x _ => ?_
  simp only [Function.comp_apply, h]

namespace Domain

/-- A domain with changed files. -/
def mapFiles (change : SourceFile → SourceFile) (domain : Domain) : Domain :=
  { domain with files := domain.files.map change }

section

variable (h : KeepsShape change)

include h

theorem paths_mapFiles (domain : Domain) : (domain.mapFiles change).paths = domain.paths := by
  unfold paths mapFiles
  rw [List.map_map]
  exact List.map_congr_left fun file _ => h.path file

theorem layerPaths_map (layer : Layer) (files : List SourceFile) :
    layerPaths layer (files.map change) = layerPaths layer files := by
  unfold layerPaths
  rw [List.filter_map, List.map_map]
  have hfilter : ∀ file ∈ files, ((fun file : SourceFile => file.layer == layer) ∘ change) file =
      (file.layer == layer) := fun file _ => by rw [Function.comp_apply, h.layer]
  rw [List.filter_congr hfilter]
  exact List.map_congr_left fun file _ => h.path file

theorem ofGroup_map (key : String) (files : List SourceFile) :
    ofGroup key (files.map change) = (ofGroup key files).mapFiles change := by
  have hentry : ((files.map change).filter isEntrypoint).map (·.path) =
      (files.filter isEntrypoint).map (·.path) := by
    rw [List.filter_map, List.map_map]
    have hfilter : ∀ file ∈ files, (isEntrypoint ∘ change) file = isEntrypoint file := by
      intro file _
      simp only [Function.comp_apply, isEntrypoint, h.exports, h.path]
    rw [List.filter_congr hfilter]
    exact List.map_congr_left fun file _ => h.path file
  simp only [ofGroup, mapFiles, layerPaths_map h, hentry]

theorem byDirectory_map (files : List SourceFile) :
    byDirectory (files.map change) = (byDirectory files).map (mapFiles change) := by
  unfold byDirectory
  rw [groupByKey_map _ change fun file => by rw [h.path], List.map_mergeSort, List.map_map,
    List.map_map]
  · congr 1
    exact List.map_congr_left fun group _ => ofGroup_map h group.1 group.2
  · intro first _ second _
    simp [mapFiles]

theorem withChannels_mapFiles (domain : Domain) :
    withChannels (domain.mapFiles change) = (withChannels domain).mapFiles change := by
  have hchannels : channelsOf (domain.mapFiles change).files = channelsOf domain.files := by
    unfold channelsOf mapFiles
    rw [List.filterMap_map]
    congr 1
    refine List.filterMap_congr fun file _ => ?_
    have hcontract : importsContract (change file) = importsContract file := by
      unfold importsContract
      rw [h.imports]
    rw [Function.comp_apply, channelOf?, hcontract, h.path, channelOf?]
  unfold withChannels
  rw [hchannels]
  split <;> rfl

theorem withGroupName_mapFiles (threshold : Number.Binary64) (groups : List String)
    (domain : Domain) :
    withGroupName threshold groups (domain.mapFiles change) =
      (withGroupName threshold groups domain).mapFiles change := by
  have hcovered : (domain.mapFiles change).isCovered threshold = domain.isCovered threshold := by
    funext group
    unfold isCovered overlap size
    rw [paths_mapFiles h]
  unfold withGroupName
  rw [hcovered]
  split
  · dsimp only
    split <;> rfl
  · rfl

omit h in
theorem map_comm {f : Domain → Domain}
    (hf : ∀ domain, f (mapFiles change domain) = mapFiles change (f domain))
    (domains : List Domain) :
    (domains.map (mapFiles change)).map f = (domains.map f).map (mapFiles change) := by
  rw [List.map_map, List.map_map]
  exact List.map_congr_left fun domain _ => hf domain

theorem infer_map (threshold : Number.Binary64) (sensitivity : Sensitivity)
    (files : List SourceFile) :
    infer threshold sensitivity (files.map change) =
      (infer threshold sensitivity files).map (mapFiles change) := by
  have hgroups : namingGroups (files.map change) = namingGroups files := by
    unfold namingGroups
    rw [List.filterMap_map]
    congr 1
    exact List.filterMap_congr fun file _ => by rw [Function.comp_apply, h.path]
  have hchannels := map_comm (withChannels_mapFiles h)
  have hnames := map_comm (withGroupName_mapFiles h threshold (namingGroups files))
  unfold infer
  rw [byDirectory_map h, hgroups]
  cases sensitivity with
  | low => rfl
  | medium => exact hchannels _
  | high =>
      dsimp only
      rw [hchannels, hnames]

end

end Domain

/-! ## Lines of documents -/

/-- What the documents of some files are written from. -/
def Summary.ofFiles (settings : Settings) (files : List SourceFile) : Summary where
  files := files
  totalFiles := files.length
  totalLines := totalLineCount files
  languages := Scan.languageCounts files
  domains := Domain.infer settings.threshold settings.sensitivity files

theorem Scan.summary_ofTree (tree : Tree) (shell : Shell) (reply : Git.Reply) (settings : Settings)
    (root : Location) :
    (Scan.ofTree tree shell reply settings root).summary =
      .ofFiles settings (Scan.ofTree tree shell reply settings root).files := rfl

namespace Page

variable {R : String → String → Prop}

/-- The lines that show lengths are related. -/
structure ShowsLengths (R : String → String → Prop) (change : SourceFile → SourceFile)
    (settings : Settings) (files : List SourceFile) : Prop where
  same : ∀ line, R line line
  figures : ∀ label, R (figures (.ofFiles settings (files.map change)) label)
    (figures (.ofFiles settings files) label)
  entrypoint : ∀ file, R (entrypointLine (change file)) (entrypointLine file)
  row : ∀ file, R (fileRow (change file)) (fileRow file)

theorem ShowsLengths.lines_same (hlines : ShowsLengths R change settings files)
    (lines : List String) : List.Forall₂ R lines lines :=
  List.forall₂_same.mpr fun line _ => hlines.same line

section

variable (h : KeepsShape change)

include h

theorem firstPath?_map (files : List SourceFile) (parts : List String) :
    Summary.firstPath? (files.map change) parts = Summary.firstPath? files parts := by
  have hpath : (fun file : SourceFile => file.path) ∘ change = fun file => file.path :=
    funext h.path
  unfold Summary.firstPath?
  rw [List.map_map, hpath]

theorem messageLines_map (files : List SourceFile) :
    messageLines (files.map change) = messageLines files := by
  unfold messageLines Summary.contractPath? Summary.handlersPath?
  rw [firstPath?_map h, firstPath?_map h]

theorem domainLines_map (files : List SourceFile) :
    domainLines (files.map change) = domainLines files := by
  have hlayer : ∀ layer, usesLayer layer (files.map change) = usesLayer layer files := by
    intro layer
    unfold usesLayer
    rw [List.any_map]
    congr 1
    funext file
    rw [Function.comp_apply, h.layer]
  unfold domainLines Summary.isLayered
  rw [hlayer, hlayer]

theorem languageCounts_map (files : List SourceFile) :
    Scan.languageCounts (files.map change) = Scan.languageCounts files := by
  unfold Scan.languageCounts
  rw [groupByKey_map _ change fun file => by rw [h.language], List.map_map]
  refine List.map_congr_left fun group _ => ?_
  simp

theorem overviewLines_map (hlines : ShowsLengths R change settings files) (project : String) :
    List.Forall₂ R (overviewLines project (.ofFiles settings (files.map change)))
      (overviewLines project (.ofFiles settings files)) := by
  have hdomains : (Summary.ofFiles settings (files.map change)).domains.map domainRow =
      (Summary.ofFiles settings files).domains.map domainRow := by
    change (Domain.infer _ _ (files.map change)).map domainRow = _
    rw [Domain.infer_map h, List.map_map]
    rfl
  have hlanguages : (Summary.ofFiles settings (files.map change)).languages =
      (Summary.ofFiles settings files).languages := languageCounts_map h files
  have hmessage : messageLines (Summary.ofFiles settings (files.map change)).files =
      messageLines (Summary.ofFiles settings files).files := messageLines_map h files
  have hdomain : domainLines (Summary.ofFiles settings (files.map change)).files =
      domainLines (Summary.ofFiles settings files).files := domainLines_map h files
  have hsame := hlines.lines_same
  unfold overviewLines
  rw [hdomains, hlanguages, hmessage, hdomain]
  refine List.rel_append (List.rel_append (List.rel_append (List.rel_append ?_ (hsame _))
    (hsame _)) (hsame _)) (hsame _)
  exact .cons (hlines.same _) (.cons (hlines.same _) (.cons (hlines.same _)
    (.cons (hlines.figures _) (hsame _))))

theorem entrypointLines_map (hlines : ShowsLengths R change settings files) :
    List.Forall₂ R (entrypointLines (files.map change)) (entrypointLines files) := by
  have hfound : Summary.entrypoints (files.map change) = (Summary.entrypoints files).map change := by
    unfold Summary.entrypoints
    rw [List.filter_map]
    congr 1
    refine List.filter_congr fun file _ => ?_
    simp only [Function.comp_apply, Summary.isEntrypoint, Sign.holds, h.layer, h.path]
  have hsame := hlines.lines_same
  unfold entrypointLines
  rw [hfound]
  cases Summary.entrypoints files with
  | nil => exact hsame _
  | cons first rest =>
      rw [List.map_cons]
      dsimp only
      refine List.rel_append (List.rel_append (hsame _) ?_) (hsame _)
      rw [← List.map_cons, List.map_map, List.forall₂_map_left_iff, List.forall₂_map_right_iff]
      exact List.forall₂_same.mpr fun file _ => hlines.entrypoint file

theorem sectionLines_map (hlines : ShowsLengths R change settings files) (domain : Domain) :
    List.Forall₂ R (sectionLines (domain.mapFiles change)) (sectionLines domain) := by
  have hsorted : sortedFiles (domain.files.map change) = (sortedFiles domain.files).map change := by
    unfold sortedFiles
    rw [List.map_mergeSort]
    intro first _ second _
    rw [h.path, h.path]
  have hsame := hlines.lines_same
  have hrows : List.Forall₂ R ((sortedFiles (domain.mapFiles change).files).map fileRow)
      ((sortedFiles domain.files).map fileRow) := by
    change List.Forall₂ R ((sortedFiles (domain.files.map change)).map fileRow) _
    rw [hsorted, List.map_map, List.forall₂_map_left_iff, List.forall₂_map_right_iff]
    exact List.forall₂_same.mpr fun file _ => hlines.row file
  unfold sectionLines
  exact List.rel_append (List.rel_append (List.rel_append (List.rel_append (hsame _) (hsame _))
    (hsame _)) hrows) (hsame _)

theorem indexLines_map (hlines : ShowsLengths R change settings files) (project : String) :
    List.Forall₂ R (indexLines project (.ofFiles settings (files.map change)))
      (indexLines project (.ofFiles settings files)) := by
  have hsame := hlines.lines_same
  have hsections : List.Forall₂ R
      ((Summary.ofFiles settings (files.map change)).domains.flatMap sectionLines)
      ((Summary.ofFiles settings files).domains.flatMap sectionLines) := by
    change List.Forall₂ R ((Domain.infer _ _ (files.map change)).flatMap sectionLines) _
    rw [Domain.infer_map h, List.flatMap_map]
    exact List.rel_flatMap (List.forall₂_same.mpr fun _ _ => rfl) fun domain other hdomain =>
      hdomain ▸ sectionLines_map h hlines domain
  unfold indexLines
  refine List.rel_append (List.rel_append ?_ (entrypointLines_map h hlines)) hsections
  exact .cons (hlines.same _) (.cons (hlines.same _) (.cons (hlines.figures _) (hsame _)))

end

end Page

end SourceAtlas
