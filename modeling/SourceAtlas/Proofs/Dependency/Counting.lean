import Mathlib.Algebra.GroupWithZero.Nat
import Mathlib.Data.List.Nodup
import SourceAtlas.Proofs.Dependency.Names

/-!
# Where an import counts

An import of a file counts on one edge at most. Taking it out of its file takes one off this edge and
leaves all others as they are, so where an import counts can be told from graphs alone.
-/

namespace SourceAtlas.Dependency

variable {files : List SourceFile} {source : SourceFile} {starts : List String}
  {path name : String} {pair : String × String}

/-- The number of imports that the edges between two paths count. -/
def importsBetween (edges : List Dependency) (pair : String × String) : Nat :=
  ((edges.filter (ends · == pair)).map (·.importCount)).sum

/-- The file, without an import if it is the one at the path. -/
def dropImport (path name : String) (file : SourceFile) : SourceFile :=
  if file.path = path then { file with imports := file.imports.erase name } else file

/-- An import of the file at a path counts on the edge and on no other one: without it the graph
counts one import less there, and the same everywhere else. -/
def CountsOn (starts : List String) (files : List SourceFile) (path name : String)
    (edge : Option (String × String)) : Prop :=
  ∀ pair, importsBetween (graph starts files) pair =
    importsBetween (graph starts (files.map (dropImport path name))) pair +
      if edge = some pair then 1 else 0

theorem CountsOn.eq_some {edge other : Option (String × String)}
    (h : CountsOn starts files path name edge) (hother : CountsOn starts files path name other)
    (hedge : edge = some pair) : other = some pair := by
  have hsame := (h pair).symm.trans (hother pair)
  rw [if_pos hedge] at hsame
  by_contra hne
  rw [if_neg hne] at hsame
  omega

/-- An import counts on one edge at most. -/
theorem CountsOn.unique {edge other : Option (String × String)}
    (h : CountsOn starts files path name edge) (hother : CountsOn starts files path name other) :
    edge = other :=
  Option.ext fun _ => ⟨h.eq_some hother, hother.eq_some h⟩

/-! ## Imports between two paths -/

theorem importsBetween_map {pairs : List (String × String)} (hnodup : pairs.Nodup)
    {count : String × String → Nat} (hout : pair ∉ pairs → count pair = 0) :
    importsBetween (pairs.map (between count)) pair = count pair := by
  have hfilter : (pairs.map (between count)).filter (ends · == pair) =
      List.replicate (pairs.count pair) (between count pair) := by
    rw [List.filter_map, ← List.map_replicate, ← List.filter_beq]
    rfl
  unfold importsBetween
  rw [hfilter, List.map_replicate, List.sum_replicate_nat]
  by_cases hmem : pair ∈ pairs
  · rw [List.count_eq_one_of_mem hnodup hmem, Nat.one_mul]
    rfl
  · rw [List.count_eq_zero.mpr hmem, hout hmem, Nat.zero_mul]

theorem importsBetween_graph (starts : List String) (files : List SourceFile)
    (pair : String × String) :
    importsBetween (graph starts files) pair = (resolvedImports starts files).count pair := by
  rw [graph_eq_tally, tally]
  refine importsBetween_map (nodup_distinct _) fun hout => ?_
  rw [mem_distinct] at hout
  exact List.count_eq_zero.mpr hout

/-! ## The edge of an import -/

/-- The edge of an import of the file at a path, if the import is resolved to another file. -/
def edge? (starts : List String) (table : List Names) (path name : String) :
    Option (String × String) :=
  if isInternal starts name then
    (resolve? table path name).bind fun found =>
      if found.path = path then none else some (path, found.path)
  else none

theorem resolvedImports_eq (starts : List String) (files : List SourceFile) :
    resolvedImports starts files = files.flatMap fun file =>
      file.imports.filterMap (edge? starts (files.map namesOf) file.path) := by
  unfold resolvedImports
  refine List.flatMap_congr fun file _ => ?_
  rw [List.filterMap_filter]
  refine List.filterMap_congr fun name _ => ?_
  unfold edge?
  split
  · cases resolve? (files.map namesOf) file.path name <;> rfl
  · rfl

theorem edge?_map {change : SourceFile → SourceFile} (hpath : ∀ file, (change file).path = file.path)
    (starts : List String) (files : List SourceFile) :
    edge? starts ((files.map change).map namesOf) = edge? starts (files.map namesOf) := by
  funext importer target
  unfold edge?
  rw [resolve?_map hpath, Option.bind_map]
  simp only [Function.comp_def, hpath]

theorem path_dropImport (path name : String) (file : SourceFile) :
    (dropImport path name file).path = file.path := by
  unfold dropImport
  split <;> rfl

theorem count_filterMap_erase {imports : List String} (h : name ∈ imports)
    (edge : String → Option (String × String)) :
    (imports.filterMap edge).count pair =
      ((imports.erase name).filterMap edge).count pair + if edge name = some pair then 1 else 0 := by
  rw [((List.perm_cons_erase h).filterMap edge).count_eq, List.filterMap_cons]
  cases edge name with
  | none => simp
  | some other => simp [List.count_cons]

/-- An import counts on its edge. -/
theorem countsOn_edge? (hnodup : (files.map (·.path)).Nodup) (hsource : source ∈ files)
    (hname : name ∈ source.imports) :
    CountsOn starts files source.path name
      (edge? starts (files.map namesOf) source.path name) := by
  intro pair
  rw [importsBetween_graph, importsBetween_graph, resolvedImports_eq, resolvedImports_eq,
    edge?_map (path_dropImport source.path name)]
  generalize edge? starts (files.map namesOf) = edge
  obtain ⟨front, back, rfl⟩ := List.append_of_mem hsource
  rw [List.map_append, List.map_cons, List.perm_middle.nodup_iff, List.nodup_cons, List.mem_append,
    not_or] at hnodup
  obtain ⟨⟨hfront, hback⟩, -⟩ := hnodup
  -- No other file has the path, so no other file loses an import.
  have hkept : ∀ others : List SourceFile, source.path ∉ others.map (·.path) →
      others.map (dropImport source.path name) = others := by
    intro others hothers
    refine (List.map_congr_left fun file hfile => ?_).trans (List.map_id others)
    exact if_neg fun hsame => hothers (List.mem_map.mpr ⟨file, hfile, hsame⟩)
  have hdrop : dropImport source.path name source =
      { source with imports := source.imports.erase name } := if_pos rfl
  rw [List.map_append, List.map_cons, hkept front hfront, hkept back hback, hdrop,
    List.flatMap_append, List.flatMap_append, List.flatMap_cons, List.flatMap_cons]
  dsimp only
  rw [List.count_append, List.count_append, List.count_append, List.count_append,
    count_filterMap_erase hname (edge source.path)]
  omega

/-- A listed file with imports, all else about which is left open. -/
def fileAt (path : String) (imports : List String) : SourceFile where
  path := path
  location := "/p/" ++ path
  language := .typescript
  lineCount := 1
  sizeBytes := 0
  imports := imports

end SourceAtlas.Dependency
