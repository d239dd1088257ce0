import SourceAtlas.Proofs.Listing.Walk
import SourceAtlas.Project.Root
import SourceAtlas.Proofs.Outcome
import SourceAtlas.Proofs.Tree.Walk

/-!
# Trees with other contents

When files get other bytes and nothing else changes, every path leads where it led before. So a
project keeps its root and its listing, and a file is found with its new bytes.
-/

namespace SourceAtlas

open Outcome

/-- The entry with other bytes, if it is a file. -/
def Entry.mapBytes (change : List UInt8 → List UInt8) : Entry → Entry
  | file bytes modified => file (change bytes) modified
  | directory => directory
  | link target => link target

/-- What a path leads to when the entry there has other bytes. -/
def Spot.mapBytes (change : Route → List UInt8 → List UInt8) : Spot → Spot
  | here route entry => here route (entry.mapBytes (change route))
  | vacant directory name => vacant directory name

namespace Tree

/-- The tree with other bytes in its files; the change of a file may depend on its route. -/
def mapBytes (tree : Tree) (change : Route → List UInt8 → List UInt8) : Tree :=
  ⟨tree.entries.map fun (route, entry) => (route, entry.mapBytes (change route))⟩

variable (tree : Tree) (change : Route → List UInt8 → List UInt8) (shell : Shell)

theorem lookup_mapBytes (entries : List (Route × Entry)) (route : Route) :
    (entries.map fun (route, entry) => (route, entry.mapBytes (change route))).lookup route =
      (entries.lookup route).map (Entry.mapBytes (change route)) := by
  induction entries with
  | nil => rfl
  | cons entry rest ih =>
      obtain ⟨place, entry⟩ := entry
      by_cases hroute : route = place
      · simp [hroute]
      · simp [List.lookup_cons, beq_eq_false_iff_ne.mpr hroute, ih]

theorem find?_mapBytes (route : Route) :
    (tree.mapBytes change).find? route = (tree.find? route).map (Entry.mapBytes (change route)) := by
  cases route with
  | nil => rfl
  | cons name rest => exact lookup_mapBytes change tree.entries (name :: rest)

/-! ## Paths -/

theorem walk_mapBytes (followLast : Bool) (links : Nat) (directory : Route) (names : List String) :
    walk (tree.mapBytes change) followLast links directory names =
      (walk tree followLast links directory names).map (Spot.mapBytes change) := by
  induction links, directory, names using walk_induction tree with
  | nil links directory => simp [Except.map, Spot.mapBytes, Entry.mapBytes]
  | dot links directory rest ih => rw [walk_dot, walk_dot, ih]
  | dots links directory rest ih => rw [walk_dots, walk_dots, ih]
  | long links directory name rest hdot hdots hlong =>
      rw [walk_long _ _ _ _ hdot hdots hlong, walk_long _ _ _ _ hdot hdots hlong]
      rfl
  | absent links directory name rest hplain hfind =>
      rw [walk_plain _ _ _ _ hplain, walk_plain _ _ _ _ hplain, find?_mapBytes, hfind]
      cases rest <;> rfl
  | file links directory name rest bytes modified hplain hfind =>
      rw [walk_plain _ _ _ _ hplain, walk_plain _ _ _ _ hplain, find?_mapBytes, hfind]
      cases rest <;> rfl
  | directory links directory name rest hplain hfind ih =>
      rw [walk_plain _ _ _ _ hplain, walk_plain _ _ _ _ hplain, find?_mapBytes, hfind]
      exact ih
  | lastLink directory name rest target hplain hfind =>
      rw [walk_plain _ _ _ _ hplain, walk_plain _ _ _ _ hplain, find?_mapBytes, hfind]
      cases rest <;> cases followLast <;> rfl
  | link links directory name rest target hplain hfind ih =>
      rw [walk_plain _ _ _ _ hplain, walk_plain _ _ _ _ hplain, find?_mapBytes, hfind]
      dsimp only [Option.map_some, Entry.mapBytes, walkBehind]
      split
      · rfl
      · exact ih

theorem locate_mapBytes (followLast : Bool) (location : Location) :
    (tree.mapBytes change).locate shell followLast location =
      (tree.locate shell followLast location).map (Spot.mapBytes change) := by
  unfold locate
  split
  · rfl
  · split
    · rfl
    · rw [walk_mapBytes]
      cases walk tree followLast maxLinks (startOf shell location) location.parts <;> rfl

/-- A location leads to the same place, with the new bytes. -/
theorem stat_mapBytes (location : Location) :
    (tree.mapBytes change).stat shell location =
      (tree.stat shell location).map fun found => (found.1, found.2.mapBytes (change found.1)) := by
  unfold stat
  rw [locate_mapBytes]
  cases tree.locate shell true location with
  | error failure => rfl
  | ok spot => cases spot <;> rfl

theorem readBytes_mapBytes (location : Location) :
    (tree.mapBytes change).readBytes shell location =
      match tree.stat shell location with
      | .ok (place, _) => (tree.readBytes shell location).map (change place)
      | .error failure => .error failure := by
  unfold readBytes
  rw [stat_mapBytes]
  cases tree.stat shell location with
  | error failure => rfl
  | ok found =>
      obtain ⟨place, entry⟩ := found
      cases entry <;> rfl

theorem isPresent_mapBytes (location : Location) :
    (tree.mapBytes change).isPresent shell location = tree.isPresent shell location := by
  unfold isPresent probe
  rw [stat_mapBytes]
  cases tree.stat shell location with
  | ok found => rfl
  | error failure => rfl

theorem isDirectory_mapBytes (location : Location) :
    (tree.mapBytes change).isDirectory shell location = tree.isDirectory shell location := by
  unfold isDirectory probe
  rw [stat_mapBytes]
  cases tree.stat shell location with
  | error failure => rfl
  | ok found =>
      obtain ⟨place, entry⟩ := found
      cases entry <;> rfl

theorem linkAt?_mapBytes (location : Location) :
    (tree.mapBytes change).linkAt? shell location = tree.linkAt? shell location := by
  unfold linkAt?
  rw [locate_mapBytes]
  cases tree.locate shell false location with
  | error failure => rfl
  | ok spot =>
      cases spot with
      | vacant directory name => rfl
      | here place entry => cases entry <;> rfl

/-- The links are the old ones, and so are the real paths. -/
theorem resolve_mapBytes (location : Location) :
    (tree.mapBytes change).resolve shell location = tree.resolve shell location := by
  have hlinks : (tree.mapBytes change).linkAt? shell = tree.linkAt? shell :=
    funext (linkAt?_mapBytes tree change shell)
  unfold resolve
  rw [realPath_congr hlinks]
  cases tree.realPath shell location with
  | error failure => dsimp only [bind, Except.bind]
  | ok path =>
      dsimp only [bind, Except.bind]
      rw [stat_mapBytes]
      cases tree.stat shell path <;> rfl

end Tree

theorem Project.root_mapBytes (tree : Tree) (change : Route → List UInt8 → List UInt8)
    (shell : Shell) (path : String) :
    Project.root (tree.mapBytes change) shell path = Project.root tree shell path := by
  unfold Project.root
  simp only [Tree.resolve_mapBytes, Tree.isPresent_mapBytes, Tree.isDirectory_mapBytes]

/-! ## Listings -/

namespace Listing

variable (tree : Tree) (change : Route → List UInt8 → List UInt8) (shell : Shell)

theorem entriesBelow_mapBytes (base : Route) :
    (tree.mapBytes change).entriesBelow base = (tree.entriesBelow base).map fun (route, entry) =>
      (route, entry.mapBytes (change (base ++ route))) := by
  unfold Tree.entriesBelow Tree.mapBytes
  rw [List.filterMap_map, List.map_filterMap]
  refine List.filterMap_congr fun ⟨route, entry⟩ _ => ?_
  dsimp only [Function.comp_apply]
  cases hbelow : Tree.below? base route with
  | none => rfl
  | some rest =>
      cases rest with
      | nil => rfl
      | cons name rest => rw [Tree.below?_eq_some_iff.mp hbelow]; rfl

theorem children_mapBytes (directory : Route) :
    (tree.mapBytes change).children directory = (tree.children directory).map fun (name, entry) =>
      (name, entry.mapBytes (change (directory ++ [name]))) := by
  unfold Tree.children
  rw [entriesBelow_mapBytes, List.filterMap_map, List.map_filterMap]
  refine List.filterMap_congr fun ⟨route, entry⟩ _ => ?_
  dsimp only [Function.comp_apply]
  rcases route with _ | ⟨name, _ | ⟨next, rest⟩⟩ <;> rfl

/-- The same directories are listed, and they hold the same names. -/
theorem listDirectory_mapBytes (location : Location) :
    ((tree.mapBytes change).listDirectory shell location = tree.listDirectory shell location ∧
      ∃ failure, tree.listDirectory shell location = .error failure) ∨
    ∃ directory, tree.listDirectory shell location = .ok (tree.children directory) ∧
      (tree.mapBytes change).listDirectory shell location =
        .ok ((tree.children directory).map fun (name, entry) =>
          (name, entry.mapBytes (change (directory ++ [name])))) := by
  unfold Tree.listDirectory
  rw [Tree.stat_mapBytes]
  cases tree.stat shell location with
  | error failure => exact .inl ⟨rfl, _, rfl⟩
  | ok found =>
      obtain ⟨place, entry⟩ := found
      cases entry with
      | file bytes modified => exact .inl ⟨rfl, _, rfl⟩
      | link target => exact .inl ⟨rfl, _, rfl⟩
      | directory =>
          refine .inr ⟨place, rfl, ?_⟩
          rw [← children_mapBytes]
          rfl

theorem isLeaf_mapBytes (location : Location) (entry : Entry) (bytes : List UInt8 → List UInt8) :
    isLeaf (tree.mapBytes change) shell location (entry.mapBytes bytes) =
      isLeaf tree shell location entry := by
  cases entry with
  | link target => simp only [Entry.mapBytes, isLeaf, Tree.isDirectory_mapBytes]
  | file old modified => rfl
  | directory => rfl

theorem leafNames_mapBytes (directory : Location) (entries : List (String × Entry))
    (bytes : String → List UInt8 → List UInt8) :
    leafNames (tree.mapBytes change) shell directory
        (entries.map fun (name, entry) => (name, entry.mapBytes (bytes name))) =
      leafNames tree shell directory entries := by
  unfold leafNames
  rw [List.filter_map, List.map_map]
  simp only [Function.comp_def, isLeaf_mapBytes]

theorem enteredNames_mapBytes (entries : List (String × Entry))
    (bytes : String → List UInt8 → List UInt8) :
    enteredNames (entries.map fun (name, entry) => (name, entry.mapBytes (bytes name))) =
      enteredNames entries := by
  have hdirectory : ∀ (entry : Entry) (bytes : List UInt8 → List UInt8),
      (entry.mapBytes bytes == .directory) = (entry == .directory) := by
    intro entry bytes
    cases entry <;> rfl
  unfold enteredNames
  rw [List.filter_map, List.map_map]
  simp only [Function.comp_def, hdirectory]

theorem walkFrom_mapBytes (root : Location) (depth : Nat) (names : Route) :
    walkFrom (tree.mapBytes change) shell root depth names = walkFrom tree shell root depth names := by
  induction depth generalizing names with
  | zero => rfl
  | succ depth ih =>
      rw [walkFrom, walkFrom]
      dsimp only
      rcases listDirectory_mapBytes tree change shell (root.below names) with
        ⟨hsame, failure, hlist⟩ | ⟨directory, hlist, hlisted⟩
      · rw [hsame, hlist]
      · rw [hlist, hlisted]
        dsimp only
        rw [leafNames_mapBytes tree change shell _ _ fun name => change (directory ++ [name]),
          enteredNames_mapBytes _ fun name => change (directory ++ [name])]
        simp only [ih]

theorem ofTree_mapBytes (reply : Git.Reply) (patterns : List String) (root : Location) :
    ofTree (tree.mapBytes change) shell reply patterns root = ofTree tree shell reply patterns root := by
  have hwalk : walk (tree.mapBytes change) shell root = walk tree shell root :=
    walkFrom_mapBytes ..
  unfold ofTree
  rw [hwalk]

end Listing

end SourceAtlas
