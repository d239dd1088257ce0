import Mathlib.Algebra.BigOperators.Group.List.Basic
import Mathlib.Data.List.Nodup
import SourceAtlas.Listing.Listing
import SourceAtlas.Proofs.Text.Order
import SourceAtlas.Proofs.Tree.Plain
import SourceAtlas.Proofs.Tree.Temporary

/-!
# The listing of a plain project

Without git a project is walked. In a plain project the walk comes by the files in the directories
that it enters, and the listing depends on nothing but where these files are.
-/

namespace SourceAtlas

/-- The bytes of its names and slashes decide whether a path is usable. -/
theorem Location.isUsable_ofRoute_iff {route : Route} (hroute : ∀ name ∈ route, IsName name)
    (hne : route ≠ []) : (ofRoute route).IsUsable ↔
      (route.map fun name => Tree.byteLength name + 1).sum < Tree.maxPathBytes := by
  unfold IsUsable
  rw [byteLength_text_ofRoute hne]
  refine and_iff_right (Bool.eq_false_iff.mpr fun hnul => ?_)
  obtain ⟨name, hname, hmem⟩ := List.any_eq_true.mp hnul
  exact (hroute name hname).nul (by simpa using hmem)

/-- A usable path has fewer names than it may have bytes. -/
theorem Location.IsUsable.length_lt {route : Route} (h : (ofRoute route).IsUsable) :
    route.length < Tree.maxPathBytes := by
  by_cases hne : route = []
  · subst hne
    decide
  · have hbytes := h.2
    rw [byteLength_text_ofRoute hne] at hbytes
    have hlength : route.length ≤ (route.map fun name => Tree.byteLength name + 1).sum := by
      have hsum := List.length_le_sum_of_one_le (route.map fun name => Tree.byteLength name + 1)
        (by simp)
      rwa [List.length_map] at hsum
    exact Nat.lt_of_le_of_lt hlength hbytes

namespace Listing

variable {tree : Tree} {shell : Shell} {root : Location} {names : Route}

/-- One step of a walk through a directory that the system lists. -/
theorem mem_walkFrom_of_listed {entries : List (String × Entry)} {depth : Nat} {path : String}
    (h : tree.listDirectory shell (root.below names) = .ok entries) :
    path ∈ (walkFrom tree shell root (depth + 1) names).paths ↔
      (∃ name ∈ leafNames tree shell (root.below names) entries, path = slashed (names ++ [name])) ∨
      ∃ name ∈ enteredNames entries,
        path ∈ (walkFrom tree shell root depth (names ++ [name])).paths := by
  rw [walkFrom]
  dsimp only
  rw [h]
  simp only [List.mem_append, List.mem_map, List.mem_flatMap, exists_exists_and_eq_and, slashed,
    eq_comm (a := path)]

theorem paths_walkFrom_of_not_listed {failure : DiskFailure} {depth : Nat}
    (h : tree.listDirectory shell (root.below names) = .error failure) :
    (walkFrom tree shell root (depth + 1) names).paths = [] := by
  rw [walkFrom]
  dsimp only
  rw [h]

end Listing

namespace Tree

variable {tree : Tree} {base route rest : Route} {entry : Entry}

theorem below?_eq_some_iff : below? base route = some rest ↔ route = base ++ rest := by
  induction base generalizing route with
  | nil => simp [below?]
  | cons b base ih =>
      cases route with
      | nil => simp [below?]
      | cons r route =>
          by_cases hsame : b = r
          · simp [below?, hsame, ih]
          · simp [below?, hsame, Ne.symm hsame]

theorem mem_entriesBelow :
    (rest, entry) ∈ tree.entriesBelow base ↔
      rest ≠ [] ∧ (base ++ rest, entry) ∈ tree.entries := by
  unfold entriesBelow
  rw [List.mem_filterMap]
  constructor
  · rintro ⟨⟨route, found⟩, hmem, hsome⟩
    dsimp only at hsome
    split at hsome
    · next name behind hbelow =>
        cases hsome
        rw [below?_eq_some_iff.mp hbelow] at hmem
        exact ⟨List.cons_ne_nil _ _, hmem⟩
    · cases hsome
  · rintro ⟨hne, hmem⟩
    refine ⟨(base ++ rest, entry), hmem, ?_⟩
    obtain ⟨name, behind, rfl⟩ := List.exists_cons_of_ne_nil hne
    dsimp only
    rw [below?_eq_some_iff.mpr rfl]

/-! ## Directories that are listed -/

theorem IsSound.mem_children (h : tree.IsSound) {name : String} :
    (name, entry) ∈ tree.children base ↔ tree.find? (base ++ [name]) = some entry := by
  have hfound : (base ++ [name], entry) ∈ tree.entries ↔ tree.find? (base ++ [name]) = some entry :=
    h.mem_entries_iff (by simp)
  rw [← hfound]
  unfold children
  rw [List.mem_filterMap]
  constructor
  · rintro ⟨⟨route, found⟩, hmem, hsome⟩
    dsimp only at hsome
    split at hsome
    · cases hsome
      exact (mem_entriesBelow.mp hmem).2
    · cases hsome
  · intro hmem
    exact ⟨([name], entry), mem_entriesBelow.mpr ⟨List.cons_ne_nil _ _, hmem⟩, rfl⟩

/-- The system lists a directory whose path it takes. -/
theorem IsSound.listDirectory_of_usable (h : tree.IsSound)
    (hfind : tree.find? route = some .directory) (husable : (Location.ofRoute route).IsUsable)
    (shell : Shell) : tree.listDirectory shell (.ofRoute route) = .ok (tree.children route) := by
  have hstat : tree.stat shell (.ofRoute route) = .ok (route, .directory) :=
    stat_ofRoute_iff.mpr ⟨husable, h.isReal hfind⟩
  unfold listDirectory
  rw [hstat]
  rfl

theorem listDirectory_of_not_usable {location : Location} (husable : ¬ location.IsUsable)
    (tree : Tree) (shell : Shell) :
    ∃ failure, tree.listDirectory shell location = .error failure := by
  unfold listDirectory
  cases hstat : tree.stat shell location with
  | error failure => exact ⟨failure, rfl⟩
  | ok found => exact absurd (locate_eq_ok_iff.mp (stat_eq_ok_iff.mp hstat)).1 husable

/-- The directory holds files and directories only. -/
structure IsOrdinary (tree : Tree) (root : Route) : Prop where
  sound : tree.IsSound
  directory : tree.find? root = some .directory
  noLink : ∀ route target, tree.find? (root ++ route) ≠ some (.link target)

theorem IsPlain.isOrdinary {root : Route} (h : tree.IsPlain root) : tree.IsOrdinary root :=
  ⟨h.sound, h.directory, h.noLink⟩

/-- A file at some names below a directory. -/
def HoldsFile (tree : Tree) (root names : Route) : Prop :=
  ∃ bytes modified, tree.find? (root ++ names) = some (.file bytes modified)

/-- A file that the walk comes by: no directory on its way is left out, and the system lists the
directory that the file is in. -/
structure IsWalked (tree : Tree) (root names : Route) : Prop where
  entered : names.dropLast.all Listing.isEntered = true
  listed : (Location.ofRoute (root ++ names.dropLast)).IsUsable
  file : tree.HoldsFile root names

/-- A file that the walk comes by when it goes on from a directory below the root. -/
structure IsWalkedFrom (tree : Tree) (root front names : Route) : Prop where
  entered : names.dropLast.all Listing.isEntered = true
  listed : (Location.ofRoute (root ++ (front ++ names.dropLast))).IsUsable
  file : tree.HoldsFile root (front ++ names)

section Ordinary

variable {root : Route} (h : tree.IsOrdinary root)

include h

theorem IsOrdinary.ne_nil_of_holdsFile {names : Route} (hfile : tree.HoldsFile root names) :
    names ≠ [] := by
  obtain ⟨bytes, modified, hfind⟩ := hfile
  rintro rfl
  rw [List.append_nil, h.directory] at hfind
  cases hfind

theorem IsOrdinary.mem_leafNames (shell : Shell) (front : Route) (name : String) :
    name ∈ Listing.leafNames tree shell ((Location.ofRoute root).below front)
        (tree.children (root ++ front)) ↔
      tree.HoldsFile root (front ++ [name]) := by
  unfold Listing.leafNames HoldsFile
  simp only [List.mem_map, List.mem_filter, Prod.exists, h.sound.mem_children, List.append_assoc]
  constructor
  · rintro ⟨_, entry, ⟨hfind, hleaf⟩, rfl⟩
    cases entry with
    | file bytes modified => exact ⟨bytes, modified, hfind⟩
    | directory => cases hleaf
    | link target => exact absurd hfind (h.noLink _ target)
  · rintro ⟨bytes, modified, hfind⟩
    exact ⟨name, _, ⟨hfind, rfl⟩, rfl⟩

omit h in
theorem IsSound.mem_enteredNames (hsound : tree.IsSound) (directory : Route) (name : String) :
    name ∈ Listing.enteredNames (tree.children directory) ↔
      tree.find? (directory ++ [name]) = some .directory ∧ Listing.isEntered name = true := by
  unfold Listing.enteredNames
  simp only [Text.mem_sortDistinct, List.mem_map, List.mem_filter, Prod.exists, hsound.mem_children,
    Bool.and_eq_true, beq_iff_eq]
  constructor
  · rintro ⟨_, _, ⟨hfind, rfl, hentered⟩, rfl⟩
    exact ⟨hfind, hentered⟩
  · rintro ⟨hfind, hentered⟩
    exact ⟨name, .directory, ⟨hfind, rfl, hentered⟩, rfl⟩

/-- A step of the way to a file: it is in the directory, or in one that is entered from there. -/
theorem IsOrdinary.isWalkedFrom_iff {front names : Route}
    (hfront : tree.find? (root ++ front) = some .directory) :
    tree.IsWalkedFrom root front names ↔ (Location.ofRoute (root ++ front)).IsUsable ∧
      ((∃ name, names = [name] ∧ tree.HoldsFile root (front ++ [name])) ∨
        ∃ name rest, names = name :: rest ∧
          tree.find? (root ++ (front ++ [name])) = some .directory ∧
          Listing.isEntered name = true ∧ tree.IsWalkedFrom root (front ++ [name]) rest) := by
  constructor
  · rintro ⟨hentered, hlisted, hfile⟩
    refine ⟨hlisted.of_isPrefix ?_, ?_⟩
    · rw [← List.append_assoc]
      exact List.prefix_append _ _
    cases names with
    | nil =>
        obtain ⟨bytes, modified, hfind⟩ := hfile
        rw [List.append_nil, hfront] at hfind
        cases hfind
    | cons name rest =>
        by_cases hrest : rest = []
        · subst hrest
          exact .inl ⟨name, rfl, hfile⟩
        · rw [List.dropLast_cons_of_ne_nil hrest] at hentered hlisted
          rw [List.append_cons front name rest.dropLast] at hlisted
          rw [List.all_cons, Bool.and_eq_true] at hentered
          rw [List.append_cons front name rest] at hfile
          have hname : tree.find? (root ++ (front ++ [name])) = some .directory := by
            obtain ⟨bytes, modified, hfind⟩ := hfile
            rw [← List.append_assoc] at hfind
            exact h.sound.directory_above hfind hrest
          exact .inr ⟨name, rest, rfl, hname, hentered.1, hentered.2, hlisted, hfile⟩
  · rintro ⟨husable, ⟨name, rfl, hfile⟩ | ⟨name, rest, rfl, hname, hentered, hwalked⟩⟩
    · exact ⟨rfl, by simpa using husable, hfile⟩
    · have hrest : rest ≠ [] := by
        rintro rfl
        obtain ⟨bytes, modified, hfind⟩ := hwalked.file
        rw [List.append_nil, hname] at hfind
        cases hfind
      refine ⟨?_, ?_, ?_⟩
      · rw [List.dropLast_cons_of_ne_nil hrest, List.all_cons, hentered, hwalked.entered]
        rfl
      · rw [List.dropLast_cons_of_ne_nil hrest, List.append_cons front name]
        exact hwalked.listed
      · rw [List.append_cons front name]
        exact hwalked.file

/-- What a walk comes by from a directory on. The depth is no limit, because a path that reaches so
deep is not usable. -/
theorem IsOrdinary.mem_walkFrom (shell : Shell) {depth : Nat} {front : Route}
    (hfront : tree.find? (root ++ front) = some .directory)
    (hdepth : maxPathBytes ≤ depth + front.length) (path : String) :
    path ∈ (Listing.walkFrom tree shell (.ofRoute root) depth front).paths ↔
      ∃ names, tree.IsWalkedFrom root front names ∧ path = slashed (front ++ names) := by
  induction depth generalizing front with
  | zero =>
      refine iff_of_false nofun ?_
      rintro ⟨names, hwalked, -⟩
      have hlength := hwalked.listed.length_lt
      simp only [List.length_append] at hlength
      omega
  | succ depth ih =>
      by_cases husable : (Location.ofRoute (root ++ front)).IsUsable
      · have hlist := h.sound.listDirectory_of_usable hfront husable shell
        have hdeeper : ∀ name, maxPathBytes ≤ depth + (front ++ [name]).length := by
          intro name
          rw [List.length_append, List.length_singleton]
          omega
        rw [Listing.mem_walkFrom_of_listed hlist]
        simp only [h.mem_leafNames, h.sound.mem_enteredNames, List.append_assoc]
        constructor
        · rintro (⟨name, hfile, hpath⟩ | ⟨name, ⟨hname, hentered⟩, hmem⟩)
          · exact ⟨[name], (h.isWalkedFrom_iff hfront).mpr ⟨husable, .inl ⟨name, rfl, hfile⟩⟩, hpath⟩
          · obtain ⟨rest, hwalked, rfl⟩ := (ih hname (hdeeper name)).mp hmem
            exact ⟨name :: rest, (h.isWalkedFrom_iff hfront).mpr
              ⟨husable, .inr ⟨name, rest, rfl, hname, hentered, hwalked⟩⟩, by
                rw [List.append_cons front name rest]⟩
        · rintro ⟨names, hwalked, rfl⟩
          obtain ⟨-, ⟨name, rfl, hfile⟩ | ⟨name, rest, rfl, hname, hentered, hrest⟩⟩ :=
            (h.isWalkedFrom_iff hfront).mp hwalked
          · exact .inl ⟨name, hfile, rfl⟩
          · exact .inr ⟨name, ⟨hname, hentered⟩, (ih hname (hdeeper name)).mpr
              ⟨rest, hrest, by rw [List.append_cons front name rest]⟩⟩
      · obtain ⟨failure, hlist⟩ := listDirectory_of_not_usable husable tree shell
        rw [Listing.paths_walkFrom_of_not_listed hlist]
        refine iff_of_false nofun ?_
        rintro ⟨names, hwalked, -⟩
        exact husable ((h.isWalkedFrom_iff hfront).mp hwalked).1

theorem IsOrdinary.mem_walk (shell : Shell) (path : String) :
    path ∈ (Listing.walk tree shell root).paths ↔
      ∃ names, tree.IsWalked root names ∧ path = slashed names := by
  unfold Listing.walk
  rw [h.mem_walkFrom shell (by rw [List.append_nil, h.directory]) (Nat.le_add_right _ _)]
  constructor
  · rintro ⟨names, ⟨hentered, hlisted, hfile⟩, hpath⟩
    exact ⟨names, ⟨hentered, hlisted, hfile⟩, hpath⟩
  · rintro ⟨names, ⟨hentered, hlisted, hfile⟩, hpath⟩
    exact ⟨names, ⟨hentered, hlisted, hfile⟩, hpath⟩

end Ordinary

end Tree

namespace Listing

variable {tree after : Tree} {root : Route}

theorem paths_ofTree (tree : Tree) (shell : Shell) (cause : Git.Failure) (patterns : List String)
    (root : Location) :
    (ofTree tree shell (.error cause) patterns root).paths =
      arrange patterns (walk tree shell root).paths := rfl

theorem pairwise_paths (tree : Tree) (shell : Shell) (reply : Git.Reply)
    (patterns : List String) (root : Location) :
    (ofTree tree shell reply patterns root).paths.Pairwise (· < ·) := by
  unfold ofTree
  split
  · exact Text.pairwise_sortDistinct _
  · exact Text.pairwise_sortDistinct _

/-- The listed paths of a project of files and directories. -/
theorem mem_paths (h : tree.IsOrdinary root) (shell : Shell) (cause : Git.Failure)
    (patterns : List String) (path : String) :
    path ∈ (ofTree tree shell (.error cause) patterns root).paths ↔
      accepts patterns path = true ∧ ∃ names, tree.IsWalked root names ∧ path = slashed names := by
  rw [paths_ofTree, arrange, Text.mem_sortDistinct, List.mem_filter, h.mem_walk,
    and_comm]

/-- Two plain projects with files in the same places have the same listing. -/
theorem paths_congr (hbefore : tree.IsPlain root) (hafter : after.IsPlain root) (shell : Shell)
    (cause : Git.Failure) (patterns : List String)
    (h : ∀ names, tree.IsWalked root names ↔ after.IsWalked root names) :
    (ofTree after shell (.error cause) patterns root).paths =
      (ofTree tree shell (.error cause) patterns root).paths := by
  refine Text.eq_of_mem_iff (pairwise_paths ..) (pairwise_paths ..) fun path => ?_
  simp only [mem_paths hbefore.isOrdinary, mem_paths hafter.isOrdinary, h]

end Listing

/-! ## Flat projects -/

/-- A directory with files in it, and the directories above it. -/
def flatTree (root : Route) (files : List (String × List UInt8)) : Tree :=
  { entries := (List.range root.length).map (fun n => (root.take (n + 1), .directory)) ++
      files.map fun item => (root ++ [item.1], .file item.2 .recently) }

namespace flatTree

variable {root names route : Route} {files : List (String × List UInt8)} {entry : Entry}

theorem mem_entries : (route, entry) ∈ (flatTree root files).entries ↔
    (route ≠ [] ∧ route <+: root ∧ entry = .directory) ∨
      ∃ name bytes, (name, bytes) ∈ files ∧ route = root ++ [name] ∧
        entry = .file bytes .recently := by
  unfold flatTree
  rw [List.mem_append, List.mem_map, List.mem_map]
  refine or_congr ⟨?_, ?_⟩ ⟨?_, ?_⟩
  · rintro ⟨n, hn, hitem⟩
    cases hitem
    refine ⟨?_, List.take_prefix _ _, rfl⟩
    rw [List.mem_range] at hn
    exact List.ne_nil_of_length_pos (by rw [List.length_take]; omega)
  · rintro ⟨hne, habove, rfl⟩
    have hlength := habove.length_le
    have hpositive := List.length_pos_iff.mpr hne
    refine ⟨route.length - 1, List.mem_range.mpr (by omega), ?_⟩
    rw [Nat.sub_add_cancel hpositive, ← List.prefix_iff_eq_take.mp habove]
  · rintro ⟨⟨name, bytes⟩, hmem, hitem⟩
    cases hitem
    exact ⟨name, bytes, hmem, rfl, rfl⟩
  · rintro ⟨name, bytes, hmem, rfl, rfl⟩
    exact ⟨(name, bytes), hmem, rfl⟩

theorem distinct (root : Route) (hfiles : (files.map Prod.fst).Nodup) :
    ((flatTree root files).entries.map Prod.fst).Nodup := by
  have hlength : ∀ n ∈ List.range root.length, (root.take (n + 1)).length = n + 1 := by
    intro n hn
    have hlt := List.mem_range.mp hn
    rw [List.length_take]
    omega
  have hmap : (flatTree root files).entries.map Prod.fst =
      ((List.range root.length).map fun n => root.take (n + 1)) ++
        (files.map Prod.fst).map fun name => root ++ [name] := by
    unfold flatTree
    rw [List.map_append, List.map_map, List.map_map, List.map_map]
    rfl
  rw [hmap, List.nodup_append]
  refine ⟨?_, hfiles.map fun first second hsame => ?_, ?_⟩
  · refine List.Nodup.map_on (fun first hfirst second hsecond hsame => ?_) List.nodup_range
    have hsize := congrArg List.length hsame
    rw [hlength _ hfirst, hlength _ hsecond] at hsize
    omega
  · exact List.singleton_inj.mp (List.append_cancel_left hsame)
  · intro above habove file hfile hsame
    obtain ⟨n, hn, rfl⟩ := List.mem_map.mp habove
    obtain ⟨name, -, rfl⟩ := List.mem_map.mp hfile
    have hsize := congrArg List.length hsame
    have hlt := List.mem_range.mp hn
    rw [hlength _ hn, List.length_append, List.length_singleton] at hsize
    omega

theorem find?_eq_some_iff (hfiles : (files.map Prod.fst).Nodup) :
    (flatTree root files).find? route = some entry ↔ (route <+: root ∧ entry = .directory) ∨
      ∃ name bytes, (name, bytes) ∈ files ∧ route = root ++ [name] ∧
        entry = .file bytes .recently := by
  by_cases hne : route = []
  · subst hne
    rw [Tree.find?_nil, Option.some_inj]
    constructor
    · intro hentry
      exact .inl ⟨List.nil_prefix, hentry.symm⟩
    · rintro (⟨-, hentry⟩ | ⟨name, bytes, -, hroute, -⟩)
      · exact hentry.symm
      · cases (List.append_ne_nil_of_right_ne_nil root (List.cons_ne_nil name [])) hroute.symm
  · rw [Tree.find?_of_ne_nil _ hne, Tree.lookup_eq_some_iff (distinct root hfiles), mem_entries]
    simp [hne]

/-- The directory and every one above it hold files and directories only. -/
theorem isOrdinary_of_isPrefix (hfiles : (files.map Prod.fst).Nodup)
    (hroot : ∀ name ∈ root, IsName name) (hnames : ∀ name ∈ files.map Prod.fst, IsName name)
    {front : Route} (hfront : front <+: root) : (flatTree root files).IsOrdinary front := by
  refine ⟨⟨distinct root hfiles, ?_, ?_⟩, ?_, ?_⟩
  · intro route entry hfind name hname
    rcases (find?_eq_some_iff hfiles).mp hfind with ⟨habove, -⟩ | ⟨last, bytes, hmem, rfl, -⟩
    · exact hroot name (habove.subset hname)
    · rcases List.mem_append.mp hname with habove | hlast
      · exact hroot name habove
      · rw [List.mem_singleton.mp hlast]
        exact hnames last (List.mem_map.mpr ⟨_, hmem, rfl⟩)
  · intro route name entry hfind
    refine (find?_eq_some_iff hfiles).mpr (.inl ⟨?_, rfl⟩)
    rcases (find?_eq_some_iff hfiles).mp hfind with ⟨habove, -⟩ | ⟨last, bytes, hmem, hroute, -⟩
    · exact (List.prefix_append _ _).trans habove
    · obtain ⟨rfl, -⟩ := List.append_inj' hroute rfl
      exact List.prefix_refl _
  · exact (find?_eq_some_iff hfiles).mpr (.inl ⟨hfront, rfl⟩)
  · intro route target hfind
    rcases (find?_eq_some_iff hfiles).mp hfind with ⟨-, hwrong⟩ | ⟨name, bytes, -, -, hwrong⟩
    · cases hwrong
    · cases hwrong

theorem isOrdinary (hfiles : (files.map Prod.fst).Nodup) (hroot : ∀ name ∈ root, IsName name)
    (hnames : ∀ name ∈ files.map Prod.fst, IsName name) : (flatTree root files).IsOrdinary root :=
  isOrdinary_of_isPrefix hfiles hroot hnames (List.prefix_refl _)

theorem find?_file_iff (hfiles : (files.map Prod.fst).Nodup) {bytes : List UInt8} :
    (∃ modified, (flatTree root files).find? (root ++ names) = some (.file bytes modified)) ↔
      ∃ name, names = [name] ∧ (name, bytes) ∈ files := by
  constructor
  · rintro ⟨modified, hfind⟩
    rcases (find?_eq_some_iff hfiles).mp hfind with ⟨-, hwrong⟩ | ⟨name, others, hmem, hroute, hentry⟩
    · cases hwrong
    · cases hentry
      exact ⟨name, List.append_cancel_left hroute, hmem⟩
  · rintro ⟨name, rfl, hmem⟩
    exact ⟨.recently, (find?_eq_some_iff hfiles).mpr (.inr ⟨name, bytes, hmem, rfl, rfl⟩)⟩

end flatTree

/-! ## A root at the limit of a path -/

/-- A root that is named by almost as many bytes as a path may have. -/
def farRoot : Route := List.replicate 2046 "d" ++ ["p"]

theorem isName_farRoot : ∀ name ∈ farRoot, IsName name := by
  intro name hname
  rcases List.mem_append.mp hname with hfront | hlast
  · rw [List.eq_of_mem_replicate hfront]
    decide
  · rw [List.mem_singleton.mp hlast]
    decide

theorem isUsable_farRoot_append_iff {names : Route} (h : ∀ name ∈ names, IsName name) :
    (Location.ofRoute (farRoot ++ names)).IsUsable ↔
      4094 + (names.map fun name => Tree.byteLength name + 1).sum < Tree.maxPathBytes := by
  have hbytes : (farRoot.map fun name => Tree.byteLength name + 1).sum = 4094 := by
    unfold farRoot
    rw [List.map_append, List.map_replicate, List.sum_append, List.sum_replicate_nat]
    rfl
  have hne : farRoot ++ names ≠ [] := by
    unfold farRoot
    rw [List.append_assoc]
    exact List.append_ne_nil_of_right_ne_nil _ (List.cons_ne_nil _ _)
  rw [Location.isUsable_ofRoute_iff _ hne, List.map_append, List.sum_append, hbytes]
  intro name hname
  rcases List.mem_append.mp hname with hroot | hnames
  · exact isName_farRoot name hroot
  · exact h name hnames

end SourceAtlas
