import Mathlib.Data.List.Count
import Mathlib.Data.List.Induction
import SourceAtlas.Dependency
import SourceAtlas.Proofs.Grouping

/-!
# The edges of the dependency graph

An import resolves to a listed file or to none. The graph is the tally of the resolved imports: each
pair of files once, in the order in which the pairs are met first, with the number of its imports.
-/

namespace SourceAtlas.Dependency

variable {files : List SourceFile} {table : List Names} {found : SourceFile}
  {pair : String × String} {starts : List String}

/-! ## Resolved imports -/

theorem find?_append_singleton (table : List Names) (names : Names) (name : List Char) :
    find? (table ++ [names]) name =
      if names.path = name ∨ names.trimmed = name then some names.file
      else if names.bare = name ∧ (find? table name).isNone then some names.file
      else find? table name := by
  simp [find?]

/-- A name reaches files of the table only. -/
theorem mem_of_find? {name : List Char} (h : find? table name = some found) :
    ∃ names ∈ table, names.file = found := by
  induction table using List.reverseRecOn with
  | nil => cases h
  | append_singleton table names ih =>
      have hlast : names ∈ table ++ [names] := List.mem_append_right _ List.mem_cons_self
      rw [find?_append_singleton] at h
      split at h
      · cases h
        exact ⟨names, hlast, rfl⟩
      · split at h
        · cases h
          exact ⟨names, hlast, rfl⟩
        · obtain ⟨others, hothers, hfile⟩ := ih h
          exact ⟨others, List.mem_append_left _ hothers, hfile⟩

theorem mem_of_findSome? {names : List (List Char)}
    (h : names.findSome? (find? (files.map namesOf)) = some found) : found ∈ files := by
  obtain ⟨name, -, hname⟩ := List.exists_of_findSome?_eq_some h
  obtain ⟨names, hnames, rfl⟩ := mem_of_find? hname
  obtain ⟨file, hfile, rfl⟩ := List.mem_map.mp hnames
  exact hfile

/-- An import resolves to listed files only. -/
theorem mem_of_resolve? {importer target : String}
    (h : resolve? (files.map namesOf) importer target = some found) : found ∈ files :=
  mem_of_findSome? h

theorem mem_resolvedImports :
    pair ∈ resolvedImports starts files ↔
      ∃ file ∈ files, ∃ target ∈ file.imports, isInternal starts target = true ∧
        ∃ found, resolve? (files.map namesOf) file.path target = some found ∧
          found.path ≠ file.path ∧ pair = (file.path, found.path) := by
  unfold resolvedImports
  simp only [List.mem_flatMap, List.mem_filterMap, List.mem_filter, and_assoc]
  refine exists_congr fun file => and_congr_right fun _ => exists_congr fun target =>
    and_congr_right fun _ => and_congr_right fun _ => ?_
  cases resolve? (files.map namesOf) file.path target with
  | none => simp
  | some found =>
      by_cases hsame : found.path = file.path
      · simp [hsame]
      · have hother : file.path ≠ found.path := Ne.symm hsame
        simp [hsame, hother, eq_comm]

/-! ## The tally -/

/-- The ends of an edge. -/
def ends (edge : Dependency) : String × String := (edge.source, edge.target)

/-- The edge between two ends with a number of imports. -/
def between (count : String × String → Nat) (pair : String × String) : Dependency :=
  ⟨pair.1, pair.2, count pair⟩

@[simp] theorem ends_between (count : String × String → Nat) (pair : String × String) :
    ends (between count pair) = pair := rfl

/-- The edges between the pairs of a list, each with the number of times that it occurs. -/
def tally (pairs : List (String × String)) : List Dependency :=
  (distinct pairs).map (between pairs.count)

theorem map_ends_between (count : String × String → Nat) (pairs : List (String × String)) :
    (pairs.map (between count)).map ends = pairs := by
  rw [List.map_map]
  exact List.map_id _

theorem countImport_of_not_mem {edges : List Dependency} (h : pair ∉ edges.map ends) :
    countImport edges pair.1 pair.2 = edges ++ [⟨pair.1, pair.2, 1⟩] := by
  induction edges with
  | nil => rfl
  | cons edge rest ih =>
      rw [List.map_cons, List.mem_cons, not_or] at h
      have hother : ¬ (edge.source = pair.1 ∧ edge.target = pair.2) := fun hsame =>
        h.1 (Prod.ext hsame.1.symm hsame.2.symm)
      rw [countImport, if_neg hother, ih h.2, List.cons_append]

theorem countImport_between {pairs : List (String × String)} (hnodup : pairs.Nodup)
    (h : pair ∈ pairs) (count : String × String → Nat) :
    countImport (pairs.map (between count)) pair.1 pair.2 =
      pairs.map (between fun other => if other = pair then count other + 1 else count other) := by
  induction pairs with
  | nil => cases h
  | cons first rest ih =>
      obtain ⟨hfirst, hrest⟩ := List.nodup_cons.mp hnodup
      rw [List.map_cons, List.map_cons, countImport]
      by_cases hsame : first = pair
      · subst hsame
        rw [if_pos ⟨rfl, rfl⟩]
        refine congrArg₂ List.cons (by simp [between]) (List.map_congr_left fun other hother => ?_)
        have hne : other ≠ first := fun heq => hfirst (heq ▸ hother)
        simp [between, hne]
      · have hother : ¬ (first.1 = pair.1 ∧ first.2 = pair.2) := fun heq =>
          hsame (Prod.ext heq.1 heq.2)
        have hmem : pair ∈ rest := (List.mem_cons.mp h).resolve_left (Ne.symm hsame)
        rw [between, if_neg hother, ih hrest hmem]
        simp [between, hsame]

/-- One more pair counts on its edge. -/
theorem tally_append_singleton (pairs : List (String × String)) (pair : String × String) :
    tally (pairs ++ [pair]) = countImport (tally pairs) pair.1 pair.2 := by
  unfold tally
  have hcount : ∀ other, (pairs ++ [pair]).count other =
      if other = pair then pairs.count other + 1 else pairs.count other := by
    intro other
    rw [List.count_append, List.count_singleton]
    by_cases hsame : other = pair
    · simp [hsame]
    · simp [hsame, Ne.symm hsame]
  rw [distinct_append_singleton, funext hcount]
  -- A pair that was met before keeps its place, a new one comes last.
  by_cases hmem : pair ∈ pairs
  · rw [if_pos hmem, countImport_between (nodup_distinct pairs) (mem_distinct.mpr hmem)]
  · have hout : pair ∉ ((distinct pairs).map (between pairs.count)).map ends := by
      rwa [map_ends_between, mem_distinct]
    rw [if_neg hmem, countImport_of_not_mem hout, List.map_append]
    refine congrArg₂ _ (List.map_congr_left fun other hother => ?_) ?_
    · have hne : other ≠ pair := fun heq => hmem (heq ▸ mem_distinct.mp hother)
      simp [between, hne]
    · simp [between, List.count_eq_zero.mpr hmem]

/-- The graph is the tally of the resolved imports. -/
theorem graph_eq_tally (starts : List String) (files : List SourceFile) :
    graph starts files = tally (resolvedImports starts files) := by
  unfold graph
  generalize resolvedImports starts files = pairs
  -- The graph grows at its end, so the induction takes the last pair off.
  induction pairs using List.reverseRecOn with
  | nil => rfl
  | append_singleton pairs pair ih =>
      rw [List.foldl_append, ih, tally_append_singleton]
      rfl

theorem map_ends_graph (starts : List String) (files : List SourceFile) :
    (graph starts files).map ends = distinct (resolvedImports starts files) := by
  rw [graph_eq_tally]
  exact map_ends_between _ _

/-- No pair of files has two edges. -/
theorem nodup_graph (starts : List String) (files : List SourceFile) :
    ((graph starts files).map ends).Nodup := by
  rw [map_ends_graph]
  exact nodup_distinct _

/-- An edge connects two different listed files. -/
theorem ends_of_mem_graph {edge : Dependency} (h : edge ∈ graph starts files) :
    edge.source ≠ edge.target ∧ (∃ file ∈ files, file.path = edge.source) ∧
      ∃ file ∈ files, file.path = edge.target := by
  have hends : ends edge ∈ resolvedImports starts files := by
    rw [← mem_distinct, ← map_ends_graph]
    exact List.mem_map_of_mem h
  obtain ⟨file, hfile, target, -, -, found, hfound, hne, hpair⟩ := mem_resolvedImports.mp hends
  obtain ⟨hsource, htarget⟩ := Prod.mk.inj hpair
  refine ⟨?_, ⟨file, hfile, hsource.symm⟩, found, mem_of_resolve? hfound, htarget.symm⟩
  rw [hsource, htarget]
  exact Ne.symm hne

end SourceAtlas.Dependency
