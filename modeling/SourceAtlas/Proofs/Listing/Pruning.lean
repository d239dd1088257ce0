import Mathlib.Data.List.Induction
import SourceAtlas.Proofs.Listing.Git

/-!
# What the walk leaves out

A walk goes from directory to directory and does not enter the excluded and the hidden ones. No path
below these passes the filter, so the listing of the walk holds every path in the tree that passes,
as long as the system lists the directory of the file.
-/

namespace SourceAtlas.Listing

variable {tree : Tree} {root route names : Route} {directory name path : String}
  {patterns : List String}

/-- The path of an entry in a directory; the root of the project has an empty path. -/
def pathIn (directory name : String) : String :=
  if directory.isEmpty then name else directory ++ "/" ++ name

/-- A walk comes to a directory, with a path made of the names on its way. It goes on from the
directories that the system lists. -/
inductive ComesTo (tree : Tree) (root : Route) : Route → String → Prop
  | root : ComesTo tree root [] ""
  | enter {route : Route} {directory name : String} (above : ComesTo tree root route directory)
      (listed : (Location.ofRoute (root ++ route)).IsUsable)
      (found : tree.find? (root ++ (route ++ [name])) = some .directory)
      (entered : isEntered name = true) :
      ComesTo tree root (route ++ [name]) (pathIn directory name)

/-- A walk comes by a path: that of a file in a directory that it comes to and that is listed. -/
def ComesBy (tree : Tree) (root : Route) (path : String) : Prop :=
  ∃ route directory name, ComesTo tree root route directory ∧
    (Location.ofRoute (root ++ route)).IsUsable ∧ tree.HoldsFile root (route ++ [name]) ∧
    path = pathIn directory name

theorem slashed_append_singleton (hnames : ∀ name ∈ names, name ≠ "") (name : String) :
    slashed (names ++ [name]) = pathIn (slashed names) name := by
  unfold slashed pathIn
  cases names with
  | nil => simp
  | cons first rest =>
      have hfirst := hnames first List.mem_cons_self
      have hfull : ("/".intercalate (first :: rest)).isEmpty = false := by
        cases rest with
        | nil => simpa using hfirst
        | cons next rest => simp [String.intercalate_cons_cons, hfirst]
      rw [hfull, String.intercalate_append_of_ne_nil (List.cons_ne_nil _ _) (List.cons_ne_nil _ _),
        String.intercalate_singleton]
      rfl

section Ordinary

variable (h : tree.IsOrdinary root)

include h

theorem ne_empty_of_find? {entry : Entry} (hfind : tree.find? (root ++ names) = some entry) :
    ∀ name ∈ names, name ≠ "" := fun name hname =>
  (h.sound.names _ _ hfind name (List.mem_append_right _ hname)).ne_empty

/-- A walk comes to the directories on whose routes it enters every one. -/
theorem comesTo_iff (husable : (Location.ofRoute (root ++ route)).IsUsable) :
    ComesTo tree root route directory ↔
      route.all isEntered = true ∧ tree.find? (root ++ route) = some .directory ∧
        directory = slashed route := by
  constructor
  · intro hcomes
    clear husable
    induction hcomes with
    | root => exact ⟨rfl, by rw [List.append_nil, h.directory], rfl⟩
    | enter above listed found entered ih =>
        obtain ⟨hall, habove, hpath⟩ := ih
        refine ⟨?_, found, ?_⟩
        · rw [List.all_append, hall, List.all_cons, entered]
          rfl
        · rw [hpath, slashed_append_singleton (ne_empty_of_find? h habove)]
  · rintro ⟨hall, hfind, rfl⟩
    induction route using List.reverseRecOn with
    | nil => exact .root
    | append_singleton route name ih =>
        rw [List.all_append, Bool.and_eq_true] at hall
        have habove : tree.find? (root ++ route) = some .directory :=
          h.sound.parents _ name _ (by rwa [List.append_assoc])
        have hlisted : (Location.ofRoute (root ++ route)).IsUsable := by
          apply husable.of_isPrefix
          rw [← List.append_assoc]
          exact List.prefix_append _ _
        rw [slashed_append_singleton (ne_empty_of_find? h habove)]
        exact .enter (ih hlisted hall.1 habove) hlisted hfind (by simpa using hall.2)

theorem comesBy_iff :
    ComesBy tree root path ↔ ∃ names, tree.IsWalked root names ∧ path = slashed names := by
  constructor
  · rintro ⟨route, directory, name, hcomes, hlisted, hfile, rfl⟩
    obtain ⟨hall, hfind, rfl⟩ := (comesTo_iff h hlisted).mp hcomes
    refine ⟨route ++ [name], ⟨?_, ?_, hfile⟩, ?_⟩
    · rwa [List.dropLast_concat]
    · rwa [List.dropLast_concat]
    · rw [slashed_append_singleton (ne_empty_of_find? h hfind)]
  · rintro ⟨names, ⟨hall, hlisted, hfile⟩, rfl⟩
    obtain ⟨route, name, rfl⟩ := (List.eq_nil_or_concat' names).resolve_left
      (h.ne_nil_of_holdsFile hfile)
    obtain ⟨bytes, modified, hfind⟩ := id hfile
    have habove : tree.find? (root ++ route) = some .directory :=
      h.sound.parents _ name _ (by rwa [List.append_assoc])
    rw [List.dropLast_concat] at hall hlisted
    refine ⟨route, slashed route, name, (comesTo_iff h hlisted).mpr ⟨hall, habove, rfl⟩, hlisted,
      hfile, ?_⟩
    exact slashed_append_singleton (ne_empty_of_find? h habove) name

/-- The listing of the walk: a file below a directory that is not entered is rejected. -/
theorem mem_walked_iff {reply : Git.Reply} (hreply : IsUseless reply) (shell : Shell)
    (patterns : List String) (path : String) :
    path ∈ (ofTree tree shell reply patterns root).paths ↔
      accepts patterns path = true ∧ ∃ names, tree.HoldsFile root names ∧
        (Location.ofRoute (root ++ names.dropLast)).IsUsable ∧ path = slashed names := by
  rw [paths_of_useless hreply, arrange, Text.mem_sortDistinct, List.mem_filter, h.mem_walk,
    and_comm]
  refine and_congr_right fun haccepts => ?_
  constructor
  · rintro ⟨names, hwalked, rfl⟩
    exact ⟨names, hwalked.file, hwalked.listed, rfl⟩
  · rintro ⟨names, hfile, hlisted, rfl⟩
    obtain ⟨hproject, hwalked⟩ := isListed_of_accepts h hfile haccepts
    exact ⟨names, hwalked.mpr ⟨hproject, hlisted⟩, rfl⟩

end Ordinary

/-- Without git the listing ascends and holds the paths of the files of the project that pass the
filter and lie in directories that the system lists, although the walk that it is made from leaves
directories out. -/
theorem walked_losesUnlisted (h : tree.IsOrdinary root) {reply : Git.Reply}
    (hreply : IsUseless reply) (shell : Shell) (patterns : List String) :
    (∀ path, path ∈ (walk tree shell root).paths ↔ ComesBy tree root path) ∧
    (ofTree tree shell reply patterns root).paths.Pairwise (· < ·) ∧
    ∀ path, path ∈ (ofTree tree shell reply patterns root).paths ↔
      accepts patterns path = true ∧ ∃ names, tree.HoldsFile root names ∧
        (Location.ofRoute (root ++ names.dropLast)).IsUsable ∧ path = slashed names := by
  refine ⟨fun path => ?_, pairwise_paths .., mem_walked_iff h hreply shell patterns⟩
  rw [h.mem_walk, comesBy_iff h]

/-- A project with an excluded and a hidden directory. -/
def prunedTree : Tree :=
  { entries := [(["p"], .directory), (["p", "src"], .directory), (["p", "dist"], .directory),
      (["p", ".x"], .directory), (["p", "src", "a.ts"], .file [] .recently),
      (["p", "dist", "b.ts"], .file [] .recently), (["p", ".x", "c.ts"], .file [] .recently)] }

theorem walked_losesUnlisted_pruned :
    prunedTree.IsOrdinary ["p"] ∧ IsUseless (.error .missing) ∧
      "src/a.ts" ∈ (ofTree prunedTree ⟨[], []⟩ (.error .missing) [] ["p"]).paths ∧
      "dist/b.ts" ∉ (ofTree prunedTree ⟨[], []⟩ (.error .missing) [] ["p"]).paths := by
  have hordinary : prunedTree.IsOrdinary ["p"] :=
    (Tree.isPlain_of_entries (by decide) (by decide) (by decide)).isOrdinary
  have hmissing : IsUseless (.error .missing) := trivial
  obtain ⟨-, -, hlisted⟩ := walked_losesUnlisted hordinary hmissing ⟨[], []⟩ []
  have hfile : prunedTree.HoldsFile ["p"] ["src", "a.ts"] := ⟨[], .recently, by decide⟩
  have haccepts : accepts [] "src/a.ts" = true := by decide +kernel
  have hrejects : accepts [] "dist/b.ts" = false := by decide +kernel
  refine ⟨hordinary, hmissing, (hlisted _).mpr ⟨haccepts, _, hfile, by decide, by decide⟩, fun hmem => ?_⟩
  have haccepted := ((hlisted _).mp hmem).1
  rw [hrejects] at haccepted
  cases haccepted

/-- A file that passes the filter and is not listed: the path of its directory is too long. -/
theorem not_walked_farRoot :
    (flatTree (farRoot ++ ["src"]) [("a.ts", [])]).IsOrdinary farRoot ∧
      (flatTree (farRoot ++ ["src"]) [("a.ts", [])]).HoldsFile farRoot ["src", "a.ts"] ∧
      accepts [] (slashed ["src", "a.ts"]) = true ∧
      slashed ["src", "a.ts"] ∉ (ofTree (flatTree (farRoot ++ ["src"]) [("a.ts", [])]) ⟨[], []⟩
        (.error .missing) [] farRoot).paths := by
  have hfiles : (([("a.ts", [])] : List (String × List UInt8)).map Prod.fst).Nodup := by decide
  have hroot : ∀ name ∈ farRoot ++ ["src"], IsName name := by
    intro name hname
    rcases List.mem_append.mp hname with hfar | hlast
    · exact isName_farRoot name hfar
    · rw [List.mem_singleton.mp hlast]
      decide
  have hordinary := flatTree.isOrdinary_of_isPrefix hfiles hroot (by decide)
    (List.prefix_append farRoot ["src"])
  have hfile : (flatTree (farRoot ++ ["src"]) [("a.ts", [])]).HoldsFile farRoot ["src", "a.ts"] :=
    ⟨[], .recently, (flatTree.find?_eq_some_iff hfiles).mpr
      (.inr ⟨"a.ts", [], List.mem_singleton_self _, by simp, rfl⟩)⟩
  have hmissing : IsUseless (.error .missing) := trivial
  refine ⟨hordinary, hfile, by decide +kernel, fun hmem => ?_⟩
  obtain ⟨-, names, hholds, hlisted, hpath⟩ := (mem_walked_iff hordinary hmissing _ [] _).mp hmem
  obtain ⟨bytes, modified, hfind⟩ := hholds
  have hnames : ∀ name ∈ names, IsName name := fun name hname =>
    hordinary.sound.names _ _ hfind name (List.mem_append_right _ hname)
  obtain rfl := Location.slashed_inj (by decide) hnames hpath
  have hdirectory : ["src", "a.ts"].dropLast = ["src"] := rfl
  rw [hdirectory, isUsable_farRoot_append_iff (by decide)] at hlisted
  exact absurd hlisted (by decide)

end SourceAtlas.Listing
