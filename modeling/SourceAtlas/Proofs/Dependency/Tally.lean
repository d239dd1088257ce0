import Mathlib.Algebra.BigOperators.Group.Multiset.Basic
import Mathlib.Data.Finset.Card
import SourceAtlas.Proofs.Dependency.Counting
import SourceAtlas.Proofs.Text.Order

/-!
# The graph as a tally

The edges of a dependency graph are told by what they say about the imports: which pairs of files
have one, how many imports it counts, and in which order the edges come. External imports say nothing.
-/

namespace SourceAtlas

/-! ## First places -/

section FirstPlaces

variable {α κ : Type} [DecidableEq α] {ahead : κ → κ → Prop} {steps : List (κ × α)} {first second : α}

/-- In a list with ascending places, what is met first has a place ahead of all places of what is met
later. -/
theorem exists_first_place (h : steps.Pairwise fun step later => ahead step.1 later.1)
    (hlt : (steps.map Prod.snd).idxOf first < (steps.map Prod.snd).idxOf second) :
    ∃ place, (place, first) ∈ steps ∧ ∀ later, (later, second) ∈ steps → ahead place later := by
  induction steps with
  | nil => exact absurd hlt (Nat.lt_irrefl _)
  | cons step steps ih =>
      obtain ⟨place, value⟩ := step
      obtain ⟨hplace, hsteps⟩ := List.pairwise_cons.mp h
      have hsecond : value ≠ second := by
        rintro rfl
        rw [List.map_cons, List.idxOf_cons_self] at hlt
        exact Nat.not_lt_zero _ hlt
      by_cases hfirst : value = first
      · subst hfirst
        refine ⟨place, List.mem_cons_self, fun later hlater => ?_⟩
        rcases List.mem_cons.mp hlater with heq | hmem
        · exact absurd (Prod.mk.inj heq).2.symm hsecond
        · exact hplace _ hmem
      · rw [List.map_cons, List.idxOf_cons_ne _ hfirst, List.idxOf_cons_ne _ hsecond] at hlt
        obtain ⟨found, hmem, hahead⟩ := ih hsteps (Nat.lt_of_succ_lt_succ hlt)
        refine ⟨found, List.mem_cons_of_mem _ hmem, fun later hlater => ?_⟩
        rcases List.mem_cons.mp hlater with heq | hmem
        · exact absurd (Prod.mk.inj heq).2.symm hsecond
        · exact hahead later hmem

end FirstPlaces

/-- The counts of the distinct elements sum to the length. -/
theorem sum_map_count_distinct {α : Type} [DecidableEq α] [BEq α] [LawfulBEq α] (xs : List α) :
    ((distinct xs).map xs.count).sum = xs.length := by
  obtain rfl : ‹BEq α› = instBEqOfDecidableEq := lawful_beq_subsingleton _ _
  have hperm : (distinct xs).Perm xs.dedup :=
    (List.perm_ext_iff_of_nodup (nodup_distinct xs) (List.nodup_dedup xs)).mpr fun x => by
      rw [mem_distinct, List.mem_dedup]
  rw [(hperm.map xs.count).sum_eq, List.sum_map_count_dedup_eq_length]

namespace Dependency

variable {files : List SourceFile} {starts : List String} {source target : SourceFile}
  {name : String} {pair : String × String}

/-- An import of the source starts with an internal prefix and resolves to the target, another
file. -/
def LeadsTo (starts : List String) (files : List SourceFile) (source target : SourceFile)
    (name : String) : Prop :=
  (∃ start ∈ starts, start.toList <+: name.toList) ∧
    resolve? (files.map namesOf) source.path name = some target ∧ target.path ≠ source.path

instance : Decidable (LeadsTo starts files source target name) := inferInstanceAs (Decidable (_ ∧ _))

/-- At a place, the number of a file in the list and an import of this file, an edge of the pair is
met. -/
def MetAt (starts : List String) (files : List SourceFile) (pair : String × String)
    (place : Nat × String) : Prop :=
  ∃ source target, files[place.1]? = some source ∧ place.2 ∈ source.imports ∧
    LeadsTo starts files source target place.2 ∧ pair = (source.path, target.path)

/-- Files are read in their order, the imports of one file by code point. -/
def IsAhead (place later : Nat × String) : Prop :=
  place.1 < later.1 ∨ place.1 = later.1 ∧ place.2 < later.2

/-- The edges tally the internal imports that resolve to other files. -/
structure IsTally (starts : List String) (files : List SourceFile) (edges : List Dependency) :
    Prop where
  /-- No ordered pair has two edges. -/
  once : (edges.map ends).Nodup
  /-- No edge is a loop. -/
  loopless : ∀ edge ∈ edges, edge.source ≠ edge.target
  /-- A pair has an edge exactly if some import leads from one file to the other. -/
  present : ∀ pair, pair ∈ edges.map ends ↔ ∃ source ∈ files, ∃ target ∈ files,
    (∃ name ∈ source.imports, LeadsTo starts files source target name) ∧
      pair = (source.path, target.path)
  /-- An edge counts the imports that lead from one file to the other. -/
  counts : ∀ source ∈ files, ∀ target ∈ files, ∀ count,
    ⟨source.path, target.path, count⟩ ∈ edges →
      count = (source.imports.toFinset.filter (LeadsTo starts files source target)).card
  /-- An edge stands in front of those that are met later. -/
  ordered : edges.Pairwise fun edge other => ∃ place, MetAt starts files (ends edge) place ∧
    ∀ later, MetAt starts files (ends other) later → IsAhead place later
  /-- Together the edges count every internal import that leads to another file. -/
  total : (edges.map (·.importCount)).sum = (files.map fun source =>
    (source.imports.toFinset.filter fun name =>
      ∃ target ∈ files, LeadsTo starts files source target name).card).sum

/-! ## The edge of an import -/

theorem isInternal_iff : isInternal starts name = true ↔ ∃ start ∈ starts, start.toList <+: name.toList := by
  unfold isInternal
  simp only [List.any_eq_true, Option.isSome_iff_exists, Text.dropStart?_eq_some_iff]
  exact exists_congr fun start => and_congr_right fun _ => exists_congr fun _ => eq_comm

theorem edge?_eq_some_iff :
    edge? starts (files.map namesOf) source.path name = some pair ↔
      ∃ target, LeadsTo starts files source target name ∧ pair = (source.path, target.path) := by
  unfold edge? LeadsTo
  rw [← isInternal_iff]
  by_cases hinternal : isInternal starts name = true
  · rw [if_pos hinternal, Option.bind_eq_some_iff]
    refine exists_congr fun target => ?_
    by_cases hsame : target.path = source.path
    · simp [hsame]
    · simp [hinternal, hsame, eq_comm]
  · simp [hinternal]

theorem LeadsTo.mem (h : LeadsTo starts files source target name) : target ∈ files :=
  mem_of_resolve? h.2.1

/-- Where paths are distinct, an edge to the path of a file is an edge to the file. -/
theorem leadsTo_iff (hnodup : (files.map (·.path)).Nodup) (htarget : target ∈ files) :
    LeadsTo starts files source target name ↔
      edge? starts (files.map namesOf) source.path name = some (source.path, target.path) := by
  rw [edge?_eq_some_iff]
  constructor
  · exact fun h => ⟨target, h, rfl⟩
  · rintro ⟨found, hfound, hpair⟩
    obtain rfl : target = found :=
      List.inj_on_of_nodup_map hnodup htarget hfound.mem (Prod.mk.inj hpair).2
    exact hfound

theorem mem_resolvedImports_iff : pair ∈ resolvedImports starts files ↔
    ∃ source ∈ files, ∃ target ∈ files,
      (∃ name ∈ source.imports, LeadsTo starts files source target name) ∧
        pair = (source.path, target.path) := by
  rw [resolvedImports_eq]
  simp only [List.mem_flatMap, List.mem_filterMap, edge?_eq_some_iff]
  refine exists_congr fun source => and_congr_right fun _ => ⟨?_, ?_⟩
  · rintro ⟨name, hname, target, hleads, hpair⟩
    exact ⟨target, hleads.mem, ⟨name, hname, hleads⟩, hpair⟩
  · rintro ⟨target, -, ⟨name, hname, hleads⟩, hpair⟩
    exact ⟨name, hname, target, hleads, hpair⟩

/-! ## Where edges are met -/

/-- The edges of all imports in the order in which they are read, each with its place. -/
def metSteps (starts : List String) (files : List SourceFile) :
    List ((Nat × String) × (String × String)) :=
  files.zipIdx.flatMap fun item => item.1.imports.filterMap fun name =>
    (edge? starts (files.map namesOf) item.1.path name).map fun pair => ((item.2, name), pair)

theorem map_snd_metSteps (starts : List String) (files : List SourceFile) :
    (metSteps starts files).map Prod.snd = resolvedImports starts files := by
  rw [resolvedImports_eq, metSteps, List.map_flatMap]
  generalize edge? starts (files.map namesOf) = edge
  conv_rhs => rw [← List.zipIdx_map_fst 0 files, List.flatMap_map]
  refine List.flatMap_congr fun item _ => ?_
  rw [List.map_filterMap]
  refine List.filterMap_congr fun name _ => ?_
  rw [Option.map_map]
  exact congrFun Option.map_id _

theorem mem_metSteps {place : Nat × String} :
    (place, pair) ∈ metSteps starts files ↔ MetAt starts files pair place := by
  obtain ⟨number, name⟩ := place
  unfold metSteps MetAt
  simp only [List.mem_flatMap, List.mem_filterMap, List.mem_zipIdx_iff_getElem?,
    Option.map_eq_some_iff, edge?_eq_some_iff]
  constructor
  · rintro ⟨⟨source, number⟩, hsource, name, hname, pair, ⟨target, hleads, hpair⟩, hstep⟩
    cases hstep
    exact ⟨source, target, hsource, hname, hleads, hpair⟩
  · rintro ⟨source, target, hsource, hname, hleads, hpair⟩
    exact ⟨(source, number), hsource, name, hname, pair, ⟨target, hleads, hpair⟩, rfl⟩

/-- Places ascend where every file has its imports in ascending order. -/
theorem pairwise_metSteps (hsorted : ∀ file ∈ files, file.imports.Pairwise (· < ·)) :
    (metSteps starts files).Pairwise fun step later => IsAhead step.1 later.1 := by
  have hnumbers : files.zipIdx.Pairwise fun item later => item.2 < later.2 := by
    have hrange := List.pairwise_lt_range' (s := 0) (n := files.length)
    rwa [← List.zipIdx_map_snd 0 files, List.pairwise_map] at hrange
  refine List.pairwise_flatMap.mpr ⟨fun item hitem => ?_, hnumbers.imp fun hlt => ?_⟩
  · have hfile : item.1 ∈ files := List.mem_of_getElem? (List.mem_zipIdx_iff_getElem?.mp hitem)
    refine List.pairwise_filterMap.mpr ((hsorted _ hfile).imp fun hlt => ?_)
    simp only [Option.map_eq_some_iff]
    rintro _ ⟨-, -, rfl⟩ _ ⟨-, -, rfl⟩
    exact .inr ⟨rfl, hlt⟩
  · simp only [List.mem_filterMap, Option.map_eq_some_iff]
    rintro _ ⟨-, -, -, -, rfl⟩ _ ⟨-, -, -, -, rfl⟩
    exact .inl hlt

/-! ## Counts -/

theorem length_filter_eq_card {imports : List String} (hnodup : imports.Nodup) (p : String → Prop)
    [DecidablePred p] : (imports.filter p).length = (imports.toFinset.filter p).card := by
  rw [← List.toFinset_card_of_nodup (hnodup.filter _), List.toFinset_filter]
  simp only [decide_eq_true_eq]

/-- A pair is met as often as an import of its first file leads to its second. -/
theorem count_resolvedImports (hnodup : (files.map (·.path)).Nodup)
    (hsorted : ∀ file ∈ files, file.imports.Pairwise (· < ·)) (hsource : source ∈ files)
    (htarget : target ∈ files) :
    (resolvedImports starts files).count (source.path, target.path) =
      (source.imports.toFinset.filter (LeadsTo starts files source target)).card := by
  have hleads : ∀ name, LeadsTo starts files source target name ↔
      edge? starts (files.map namesOf) source.path name = some (source.path, target.path) :=
    fun name => leadsTo_iff hnodup htarget
  have himports : source.imports.Nodup := (hsorted source hsource).imp ne_of_lt
  rw [← length_filter_eq_card himports, resolvedImports_eq]
  simp only [hleads]
  -- An edge starts at the file of its import, so no other file adds to the count.
  have hothers : ∀ others : List SourceFile, source.path ∉ others.map (·.path) →
      (others.flatMap fun file => file.imports.filterMap
        (edge? starts (files.map namesOf) file.path)).count (source.path, target.path) = 0 := by
    intro others hout
    refine List.count_eq_zero.mpr fun hmem => ?_
    obtain ⟨file, hfile, hpair⟩ := List.mem_flatMap.mp hmem
    obtain ⟨name, -, hedge⟩ := List.mem_filterMap.mp hpair
    obtain ⟨found, -, hends⟩ := edge?_eq_some_iff.mp hedge
    exact hout (List.mem_map.mpr ⟨file, hfile, (Prod.mk.inj hends).1.symm⟩)
  obtain ⟨front, back, hfiles⟩ := List.append_of_mem hsource
  generalize edge? starts (files.map namesOf) = edge at hothers ⊢
  rw [hfiles, List.map_append, List.map_cons, List.perm_middle.nodup_iff, List.nodup_cons,
    List.mem_append, not_or] at hnodup
  rw [hfiles, List.flatMap_append, List.flatMap_cons, List.count_append, List.count_append,
    hothers front hnodup.1.1, hothers back hnodup.1.2, List.count_filterMap,
    List.countP_eq_length_filter]
  simp only [Nat.zero_add, Nat.add_zero, beq_eq_decide]

/-- All together, imports lead to other files as often as their files have such imports. -/
theorem length_resolvedImports (hsorted : ∀ file ∈ files, file.imports.Pairwise (· < ·)) :
    (resolvedImports starts files).length = (files.map fun source =>
      (source.imports.toFinset.filter fun name =>
        ∃ target ∈ files, LeadsTo starts files source target name).card).sum := by
  rw [resolvedImports_eq, List.length_flatMap]
  refine congrArg List.sum (List.map_congr_left fun source hsource => ?_)
  have himports : source.imports.Nodup := (hsorted source hsource).imp ne_of_lt
  rw [← length_filter_eq_card himports, List.length_filterMap_eq_countP,
    List.countP_eq_length_filter]
  refine congrArg List.length (List.filter_congr fun name _ => ?_)
  rw [Bool.eq_iff_iff, Option.isSome_iff_exists, decide_eq_true_iff]
  simp only [edge?_eq_some_iff]
  constructor
  · rintro ⟨-, target, hleads, -⟩
    exact ⟨target, hleads.mem, hleads⟩
  · rintro ⟨target, -, hleads⟩
    exact ⟨_, target, hleads, rfl⟩

/-! ## External imports -/

/-- The file with its internal imports only. -/
def internalPart (starts : List String) (file : SourceFile) : SourceFile :=
  { file with imports := file.imports.filter (isInternal starts) }

theorem graph_internalPart (starts : List String) (files : List SourceFile) :
    graph starts (files.map (internalPart starts)) = graph starts files := by
  have hpath : ∀ file, (internalPart starts file).path = file.path := fun _ => rfl
  rw [graph_eq_tally, graph_eq_tally, resolvedImports_eq, resolvedImports_eq, edge?_map hpath,
    List.flatMap_map]
  refine congrArg tally (List.flatMap_congr fun file _ => ?_)
  unfold internalPart
  dsimp only
  rw [List.filterMap_filter]
  refine List.filterMap_congr fun name _ => ?_
  unfold edge?
  split <;> rfl

/-! ## The tally -/

/-- The graph of files with distinct paths tallies their internal imports, and it is the same for all
files that have these internal imports. -/
theorem graph_isTally (hnodup : (files.map (·.path)).Nodup)
    (hsorted : ∀ file ∈ files, file.imports.Pairwise (· < ·)) :
    IsTally starts files (graph starts files) ∧
      ∀ others, others.map (internalPart starts) = files.map (internalPart starts) →
        graph starts others = graph starts files := by
  refine ⟨?_, fun others hothers => ?_⟩
  · constructor
    case once => exact nodup_graph starts files
    case loopless => exact fun edge hedge => (ends_of_mem_graph hedge).1
    case present =>
      intro pair
      rw [map_ends_graph, mem_distinct, mem_resolvedImports_iff]
    case counts =>
      intro source hsource target htarget count hedge
      rw [graph_eq_tally] at hedge
      obtain ⟨pair, -, hpair⟩ := List.mem_map.mp hedge
      obtain ⟨hfirst, hsecond, hcount⟩ := Dependency.mk.inj hpair
      obtain rfl : pair = (source.path, target.path) := Prod.ext hfirst hsecond
      exact hcount.symm.trans (count_resolvedImports hnodup hsorted hsource htarget)
    case ordered =>
      rw [graph_eq_tally, tally, List.pairwise_map]
      refine (pairwise_distinct (resolvedImports starts files)).imp fun hlt => ?_
      rw [← map_snd_metSteps] at hlt
      simpa only [mem_metSteps, ends_between] using
        exists_first_place (pairwise_metSteps hsorted) hlt
    case total =>
      have hcounts : (tally (resolvedImports starts files)).map (·.importCount) =
          (distinct (resolvedImports starts files)).map (resolvedImports starts files).count :=
        List.map_map
      rw [← length_resolvedImports hsorted, graph_eq_tally, hcounts, sum_map_count_distinct]
  · rw [← graph_internalPart starts others, hothers, graph_internalPart]

/-- A file that imports another one by three spellings, itself, and a package. -/
def spelledFiles : List SourceFile :=
  [fileAt "src/a.ts" ["../src/b", "./a", "./b.js", "./b.ts", "./c", "react"],
    fileAt "src/b.ts" ["./a", "./missing"], fileAt "src/c.ts" ["src/b"]]

/-- The spellings count on one edge; the file itself, the package and what is missing count nowhere. -/
theorem graph_isTally_spelled :
    IsTally internalStarts spelledFiles
      [⟨"src/a.ts", "src/b.ts", 3⟩, ⟨"src/a.ts", "src/c.ts", 1⟩, ⟨"src/b.ts", "src/a.ts", 1⟩,
        ⟨"src/c.ts", "src/b.ts", 1⟩] := by
  have hgraph : graph internalStarts spelledFiles =
      [⟨"src/a.ts", "src/b.ts", 3⟩, ⟨"src/a.ts", "src/c.ts", 1⟩, ⟨"src/b.ts", "src/a.ts", 1⟩,
        ⟨"src/c.ts", "src/b.ts", 1⟩] := by decide +kernel
  rw [← hgraph]
  exact (graph_isTally (by decide) (by decide +kernel)).1

end Dependency

end SourceAtlas
