import SourceAtlas.Proofs.Tree.Entries
import SourceAtlas.Tree.Resolve

/-!
# The directory that a path goes through

A walk along a path is a walk to the directory in front of its last name, followed by one step from
there. How many links are left for that step is part of where the first walk ends, so two paths that
differ in their last name only are decided in the same directory with the same number of links.

With more links left, a path that leads somewhere leads to the same spot. So a link that leads somewhere
is not met again behind itself, and where it leads does not depend on its own entry.
-/

namespace SourceAtlas.Tree

/-- Follow names that all have to lead through directories; `follow` goes on behind a link. -/
def reachWith (tree : Tree) (links : Nat) (follow : Route → List String → Except Errno (Nat × Route))
    (directory : Route) : List String → Except Errno (Nat × Route)
  | [] => .ok (links, directory)
  | name :: rest =>
      if name = "." then reachWith tree links follow directory rest
      else if name = ".." then reachWith tree links follow directory.dropLast rest
      else if maxNameBytes < byteLength name then .error .nameTooLong
      else
        let route := directory ++ [name]
        match tree.find? route with
        | none => .error .noEntry
        | some .directory => reachWith tree links follow route rest
        | some (.file _ _) => .error .notDirectory
        | some (.link target) => follow (linkStart directory target) (linkNames target ++ rest)

/-- The directory that names lead through, with the number of links that may still be followed. -/
def reach (tree : Tree) : Nat → Route → List String → Except Errno (Nat × Route)
  | 0 => reachWith tree 0 fun _ _ => .error .loop
  | links + 1 => reachWith tree (links + 1) (reach tree links)

/-- What follows a link when so many links may be followed. -/
def walkBehind (tree : Tree) (followLast : Bool) :
    Nat → Route → List String → Except Errno Spot
  | 0 => fun _ _ => .error .loop
  | links + 1 => walk tree followLast links

theorem walk_eq (tree : Tree) (followLast : Bool) (links : Nat) :
    walk tree followLast links = walkWith tree followLast (walkBehind tree followLast links) := by
  cases links <;> rfl

/-- What reaching behind a link comes to when so many links may be followed. -/
def reachBehind (tree : Tree) : Nat → Route → List String → Except Errno (Nat × Route)
  | 0 => fun _ _ => .error .loop
  | links + 1 => reach tree links

theorem reach_eq (tree : Tree) (links : Nat) :
    reach tree links = reachWith tree links (reachBehind tree links) := by
  cases links <;> rfl

section Names

variable (tree : Tree) (followLast : Bool) (links : Nat) (directory : Route)

/-- A name that is looked up in a directory. -/
def IsPlainName (name : String) : Prop :=
  name ≠ "." ∧ name ≠ ".." ∧ byteLength name ≤ maxNameBytes

theorem walk_plain {name : String} (h : IsPlainName name) (rest : List String) :
    walk tree followLast links directory (name :: rest) =
      match tree.find? (directory ++ [name]) with
      | none => if rest.isEmpty then .ok (.vacant directory name) else .error .noEntry
      | some .directory => walk tree followLast links (directory ++ [name]) rest
      | some (.file bytes modified) =>
          if rest.isEmpty then .ok (.here (directory ++ [name]) (.file bytes modified))
          else .error .notDirectory
      | some (.link target) =>
          if rest.isEmpty && !followLast then .ok (.here (directory ++ [name]) (.link target))
          else walkBehind tree followLast links (linkStart directory target)
            (linkNames target ++ rest) := by
  rw [walk_eq]
  simp only [walkWith]
  rw [if_neg h.1, if_neg h.2.1]
  refine (if_neg (Nat.not_lt.mpr h.2.2)).trans ?_
  cases tree.find? (directory ++ [name]) with
  | none => rfl
  | some entry => cases entry <;> rfl

theorem reach_plain {name : String} (h : IsPlainName name) (rest : List String) :
    reach tree links directory (name :: rest) =
      match tree.find? (directory ++ [name]) with
      | none => .error .noEntry
      | some .directory => reach tree links (directory ++ [name]) rest
      | some (.file _ _) => .error .notDirectory
      | some (.link target) =>
          reachBehind tree links (linkStart directory target) (linkNames target ++ rest) := by
  rw [reach_eq]
  simp only [reachWith]
  rw [if_neg h.1, if_neg h.2.1, if_neg (Nat.not_lt.mpr h.2.2)]

@[simp] theorem walk_nil :
    walk tree followLast links directory [] = .ok (.here directory .directory) := by
  rw [walk_eq]; rfl

@[simp] theorem reach_nil : reach tree links directory [] = .ok (links, directory) := by
  rw [reach_eq]; rfl

theorem walk_dot (rest : List String) :
    walk tree followLast links directory ("." :: rest) =
      walk tree followLast links directory rest := by
  rw [walk_eq]; simp [walkWith]

theorem reach_dot (rest : List String) :
    reach tree links directory ("." :: rest) = reach tree links directory rest := by
  rw [reach_eq]; simp [reachWith]

theorem walk_dots (rest : List String) :
    walk tree followLast links directory (".." :: rest) =
      walk tree followLast links directory.dropLast rest := by
  rw [walk_eq]; simp [walkWith]

theorem reach_dots (rest : List String) :
    reach tree links directory (".." :: rest) = reach tree links directory.dropLast rest := by
  rw [reach_eq]; simp [reachWith]

theorem walk_long {name : String} (hdot : name ≠ ".") (hdots : name ≠ "..")
    (hlong : maxNameBytes < byteLength name) (rest : List String) :
    walk tree followLast links directory (name :: rest) = .error .nameTooLong := by
  rw [walk_eq]
  simp only [walkWith]
  rw [if_neg hdot, if_neg hdots, if_pos hlong]

theorem reach_long {name : String} (hdot : name ≠ ".") (hdots : name ≠ "..")
    (hlong : maxNameBytes < byteLength name) (rest : List String) :
    reach tree links directory (name :: rest) = .error .nameTooLong := by
  rw [reach_eq]
  simp only [reachWith]
  rw [if_neg hdot, if_neg hdots, if_pos hlong]

/-- A name is a dot, two dots, looked up, or too long to be looked up. -/
theorem name_cases (name : String) :
    name = "." ∨ name = ".." ∨ IsPlainName name ∨
      (name ≠ "." ∧ name ≠ ".." ∧ maxNameBytes < byteLength name) := by
  by_cases hdot : name = "."
  · exact .inl hdot
  · by_cases hdots : name = ".."
    · exact .inr (.inl hdots)
    · by_cases hlong : maxNameBytes < byteLength name
      · exact .inr (.inr (.inr ⟨hdot, hdots, hlong⟩))
      · exact .inr (.inr (.inl ⟨hdot, hdots, Nat.not_lt.mp hlong⟩))

end Names

/-- Induction over the names of a path: a name that is looked up is a case of its own for each kind of
entry. -/
theorem names_induction (tree : Tree) {motive : Route → List String → Prop}
    (nil : ∀ directory, motive directory [])
    (dot : ∀ directory rest, motive directory rest → motive directory ("." :: rest))
    (dots : ∀ directory rest, motive directory.dropLast rest → motive directory (".." :: rest))
    (long : ∀ directory name rest, name ≠ "." → name ≠ ".." → maxNameBytes < byteLength name →
      motive directory (name :: rest))
    (absent : ∀ directory name rest, IsPlainName name → tree.find? (directory ++ [name]) = none →
      motive directory (name :: rest))
    (file : ∀ directory name rest bytes modified, IsPlainName name →
      tree.find? (directory ++ [name]) = some (.file bytes modified) →
      motive directory (name :: rest))
    (directory : ∀ directory name rest, IsPlainName name →
      tree.find? (directory ++ [name]) = some .directory → motive (directory ++ [name]) rest →
      motive directory (name :: rest))
    (link : ∀ directory name rest target, IsPlainName name →
      tree.find? (directory ++ [name]) = some (.link target) → motive directory (name :: rest))
    (start : Route) (names : List String) : motive start names := by
  induction names generalizing start with
  | nil => exact nil start
  | cons name rest ih =>
      rcases name_cases name with rfl | rfl | hplain | ⟨hdot, hdots, hlong⟩
      · exact dot _ _ (ih start)
      · exact dots _ _ (ih start.dropLast)
      · cases hfind : tree.find? (start ++ [name]) with
        | none => exact absent _ _ _ hplain hfind
        | some entry =>
            cases entry with
            | file bytes modified => exact file _ _ _ _ _ hplain hfind
            | directory => exact directory _ _ _ hplain hfind (ih _)
            | link target => exact link _ _ _ _ hplain hfind
      · exact long _ _ _ hdot hdots hlong

/-- Induction along a path: over the names, and over the links that may still be followed. -/
theorem walk_induction (tree : Tree) {motive : Nat → Route → List String → Prop}
    (nil : ∀ links directory, motive links directory [])
    (dot : ∀ links directory rest, motive links directory rest →
      motive links directory ("." :: rest))
    (dots : ∀ links directory rest, motive links directory.dropLast rest →
      motive links directory (".." :: rest))
    (long : ∀ links directory name rest, name ≠ "." → name ≠ ".." →
      maxNameBytes < byteLength name → motive links directory (name :: rest))
    (absent : ∀ links directory name rest, IsPlainName name →
      tree.find? (directory ++ [name]) = none → motive links directory (name :: rest))
    (file : ∀ links directory name rest bytes modified, IsPlainName name →
      tree.find? (directory ++ [name]) = some (.file bytes modified) →
      motive links directory (name :: rest))
    (directory : ∀ links directory name rest, IsPlainName name →
      tree.find? (directory ++ [name]) = some .directory →
      motive links (directory ++ [name]) rest → motive links directory (name :: rest))
    (lastLink : ∀ directory name rest target, IsPlainName name →
      tree.find? (directory ++ [name]) = some (.link target) →
      motive 0 directory (name :: rest))
    (link : ∀ links directory name rest target, IsPlainName name →
      tree.find? (directory ++ [name]) = some (.link target) →
      motive links (linkStart directory target) (linkNames target ++ rest) →
      motive (links + 1) directory (name :: rest))
    (links : Nat) (start : Route) (names : List String) : motive links start names := by
  induction links generalizing start names with
  | zero =>
      exact names_induction tree (nil 0) (dot 0) (dots 0) (long 0) (absent 0) (file 0) (directory 0)
        lastLink start names
  | succ links ih =>
      exact names_induction tree (nil _) (dot _) (dots _) (long _) (absent _) (file _) (directory _)
        (fun directory name rest target hplain hfind =>
          link links directory name rest target hplain hfind (ih _ _)) start names

/-- A walk goes to the directory in front of its last name and takes one step from there. -/
theorem walk_append_single (tree : Tree) (followLast : Bool) (links : Nat) (directory : Route)
    (front : List String) (last : String) :
    walk tree followLast links directory (front ++ [last]) =
      match reach tree links directory front with
      | .ok (left, parent) => walk tree followLast left parent [last]
      | .error errno => .error errno := by
  induction links, directory, front using walk_induction tree with
  | nil => simp
  | dot links directory rest ih => rw [List.cons_append, walk_dot, reach_dot, ih]
  | dots links directory rest ih => rw [List.cons_append, walk_dots, reach_dots, ih]
  | long links directory name rest hdot hdots hlong =>
      rw [List.cons_append, walk_long _ _ _ _ hdot hdots hlong, reach_long _ _ _ hdot hdots hlong]
  | absent links directory name rest hplain hfind =>
      rw [List.cons_append, walk_plain _ _ _ _ hplain, reach_plain _ _ _ hplain]
      simp [hfind]
  | file links directory name rest bytes modified hplain hfind =>
      rw [List.cons_append, walk_plain _ _ _ _ hplain, reach_plain _ _ _ hplain]
      simp [hfind]
  | directory links directory name rest hplain hfind ih =>
      rw [List.cons_append, walk_plain _ _ _ _ hplain, reach_plain _ _ _ hplain]
      simpa [hfind] using ih
  | lastLink directory name rest target hplain hfind =>
      rw [List.cons_append, walk_plain _ _ _ _ hplain, reach_plain _ _ _ hplain]
      simp [hfind, walkBehind, reachBehind]
  | link links directory name rest target hplain hfind ih =>
      rw [List.cons_append, walk_plain _ _ _ _ hplain, reach_plain _ _ _ hplain]
      simpa [hfind, walkBehind, reachBehind] using ih

/-- Reaching through two lists of names is reaching through the one and then the other. -/
theorem reach_append (tree : Tree) (links : Nat) (directory : Route)
    (front back : List String) :
    reach tree links directory (front ++ back) =
      match reach tree links directory front with
      | .ok (left, parent) => reach tree left parent back
      | .error errno => .error errno := by
  induction links, directory, front using walk_induction tree with
  | nil => simp
  | dot links directory rest ih => rw [List.cons_append, reach_dot, reach_dot, ih]
  | dots links directory rest ih => rw [List.cons_append, reach_dots, reach_dots, ih]
  | long links directory name rest hdot hdots hlong =>
      rw [List.cons_append, reach_long _ _ _ hdot hdots hlong, reach_long _ _ _ hdot hdots hlong]
  | absent links directory name rest hplain hfind =>
      rw [List.cons_append, reach_plain _ _ _ hplain, reach_plain _ _ _ hplain]
      simp [hfind]
  | file links directory name rest bytes modified hplain hfind =>
      rw [List.cons_append, reach_plain _ _ _ hplain, reach_plain _ _ _ hplain]
      simp [hfind]
  | directory links directory name rest hplain hfind ih =>
      rw [List.cons_append, reach_plain _ _ _ hplain, reach_plain _ _ _ hplain]
      simpa [hfind] using ih
  | lastLink directory name rest target hplain hfind =>
      rw [List.cons_append, reach_plain _ _ _ hplain, reach_plain _ _ _ hplain]
      simp [hfind, reachBehind]
  | link links directory name rest target hplain hfind ih =>
      rw [List.cons_append, reach_plain _ _ _ hplain, reach_plain _ _ _ hplain]
      simpa [hfind, reachBehind] using ih

/-- A walk that follows links ends at a directory exactly when the names lead through to it. -/
theorem walk_directory_iff (tree : Tree) (links : Nat) (directory : Route) (names : List String)
    (place : Route) :
    walk tree true links directory names = .ok (.here place .directory) ↔
      ∃ left, reach tree links directory names = .ok (left, place) := by
  induction links, directory, names using walk_induction tree with
  | nil => simp
  | dot links directory rest ih => rw [walk_dot, reach_dot, ih]
  | dots links directory rest ih => rw [walk_dots, reach_dots, ih]
  | long links directory name rest hdot hdots hlong =>
      rw [walk_long _ _ _ _ hdot hdots hlong, reach_long _ _ _ hdot hdots hlong]
      simp
  | absent links directory name rest hplain hfind =>
      rw [walk_plain _ _ _ _ hplain, reach_plain _ _ _ hplain]
      cases rest <;> simp [hfind]
  | file links directory name rest bytes modified hplain hfind =>
      rw [walk_plain _ _ _ _ hplain, reach_plain _ _ _ hplain]
      cases rest <;> simp [hfind]
  | directory links directory name rest hplain hfind ih =>
      rw [walk_plain _ _ _ _ hplain, reach_plain _ _ _ hplain]
      simpa [hfind] using ih
  | lastLink directory name rest target hplain hfind =>
      rw [walk_plain _ _ _ _ hplain, reach_plain _ _ _ hplain]
      simp [hfind, walkBehind, reachBehind]
  | link links directory name rest target hplain hfind ih =>
      rw [walk_plain _ _ _ _ hplain, reach_plain _ _ _ hplain]
      simpa [hfind, walkBehind, reachBehind] using ih

/-! ## Names that lead through -/

section Through

variable {tree : Tree} {links : Nat} {directory : Route} {names : List String}
  {result : Nat × Route}

/-- Names and links lead through directories: one constructor for each step that does not fail. -/
inductive Passes (tree : Tree) : Nat → Route → List String → Nat × Route → Prop
  | nil (links : Nat) (directory : Route) : Passes tree links directory [] (links, directory)
  | dot {links : Nat} {directory : Route} {rest : List String} {result : Nat × Route} :
      Passes tree links directory rest result → Passes tree links directory ("." :: rest) result
  | dots {links : Nat} {directory : Route} {rest : List String} {result : Nat × Route} :
      Passes tree links directory.dropLast rest result →
        Passes tree links directory (".." :: rest) result
  | directory {links : Nat} {directory : Route} {name : String} {rest : List String}
      {result : Nat × Route} :
      IsPlainName name → tree.find? (directory ++ [name]) = some .directory →
        Passes tree links (directory ++ [name]) rest result →
        Passes tree links directory (name :: rest) result
  | link {links : Nat} {directory : Route} {name target : String} {rest : List String}
      {result : Nat × Route} :
      IsPlainName name → tree.find? (directory ++ [name]) = some (.link target) →
        Passes tree links (linkStart directory target) (linkNames target ++ rest) result →
        Passes tree (links + 1) directory (name :: rest) result

theorem Passes.reach (h : tree.Passes links directory names result) :
    Tree.reach tree links directory names = .ok result := by
  induction h with
  | nil => rw [reach_nil]
  | dot _ ih => rw [reach_dot, ih]
  | dots _ ih => rw [reach_dots, ih]
  | directory hplain hfind _ ih => rw [reach_plain _ _ _ hplain, hfind, ih]
  | link hplain hfind _ ih => rw [reach_plain _ _ _ hplain, hfind]; exact ih

theorem passes_iff : tree.Passes links directory names result ↔
    reach tree links directory names = .ok result := by
  refine ⟨Passes.reach, fun h => ?_⟩
  induction links, directory, names using walk_induction tree with
  | nil links directory =>
      rw [reach_nil] at h
      cases h
      exact .nil links directory
  | dot links directory rest ih => exact .dot (ih (by rwa [reach_dot] at h))
  | dots links directory rest ih => exact .dots (ih (by rwa [reach_dots] at h))
  | long links directory name rest hdot hdots hlong =>
      rw [reach_long _ _ _ hdot hdots hlong] at h
      cases h
  | absent links directory name rest hplain hfind =>
      rw [reach_plain _ _ _ hplain, hfind] at h
      cases h
  | file links directory name rest bytes modified hplain hfind =>
      rw [reach_plain _ _ _ hplain, hfind] at h
      cases h
  | directory links directory name rest hplain hfind ih =>
      rw [reach_plain _ _ _ hplain, hfind] at h
      exact .directory hplain hfind (ih h)
  | lastLink directory name rest target hplain hfind =>
      rw [reach_plain _ _ _ hplain, hfind] at h
      cases h
  | link links directory name rest target hplain hfind ih =>
      rw [reach_plain _ _ _ hplain, hfind] at h
      exact .link hplain hfind (ih h)

end Through

/-! ## Links on the way -/

section Links

variable {tree : Tree} {links : Nat} {directory parent place route : Route} {names : List String}
  {name target : String} {spot : Spot}

/-- A link is followed as long as links are left. -/
theorem walk_link (hplain : IsPlainName name)
    (hfind : tree.find? (directory ++ [name]) = some (.link target)) (rest : List String) :
    walk tree true links directory (name :: rest) =
      walkBehind tree true links (linkStart directory target) (linkNames target ++ rest) := by
  rw [walk_plain _ _ _ _ hplain, hfind]
  simp

theorem walk_link_single (hplain : IsPlainName name)
    (hfind : tree.find? (parent ++ [name]) = some (.link target))
    (h : walk tree true links parent [name] = .ok spot) :
    ∃ left, links = left + 1 ∧
      walk tree true left (linkStart parent target) (linkNames target) = .ok spot := by
  rw [walk_link hplain hfind, List.append_nil] at h
  cases links with
  | zero => cases h
  | succ left => exact ⟨left, rfl, h⟩

/-- Names and links lead to a spot: one constructor for each step of a walk that does not fail. -/
inductive Arrives (tree : Tree) : Nat → Route → List String → Spot → Prop
  | nil (links : Nat) (directory : Route) :
      Arrives tree links directory [] (.here directory .directory)
  | dot {links : Nat} {directory : Route} {rest : List String} {spot : Spot} :
      Arrives tree links directory rest spot → Arrives tree links directory ("." :: rest) spot
  | dots {links : Nat} {directory : Route} {rest : List String} {spot : Spot} :
      Arrives tree links directory.dropLast rest spot →
        Arrives tree links directory (".." :: rest) spot
  | vacant (links : Nat) {directory : Route} {name : String} :
      IsPlainName name → tree.find? (directory ++ [name]) = none →
        Arrives tree links directory [name] (.vacant directory name)
  | file (links : Nat) {directory : Route} {name : String} {bytes : List UInt8}
      {modified : Modified} :
      IsPlainName name → tree.find? (directory ++ [name]) = some (.file bytes modified) →
        Arrives tree links directory [name] (.here (directory ++ [name]) (.file bytes modified))
  | directory {links : Nat} {directory : Route} {name : String} {rest : List String} {spot : Spot} :
      IsPlainName name → tree.find? (directory ++ [name]) = some .directory →
        Arrives tree links (directory ++ [name]) rest spot →
        Arrives tree links directory (name :: rest) spot
  | link {links : Nat} {directory : Route} {name target : String} {rest : List String}
      {spot : Spot} :
      IsPlainName name → tree.find? (directory ++ [name]) = some (.link target) →
        Arrives tree links (linkStart directory target) (linkNames target ++ rest) spot →
        Arrives tree (links + 1) directory (name :: rest) spot

theorem Arrives.walk (h : tree.Arrives links directory names spot) :
    Tree.walk tree true links directory names = .ok spot := by
  induction h with
  | nil => rw [walk_nil]
  | dot _ ih => rw [walk_dot, ih]
  | dots _ ih => rw [walk_dots, ih]
  | vacant links hplain hfind => rw [walk_plain _ _ _ _ hplain, hfind]; rfl
  | file links hplain hfind => rw [walk_plain _ _ _ _ hplain, hfind]; rfl
  | directory hplain hfind _ ih => rw [walk_plain _ _ _ _ hplain, hfind, ih]
  | link hplain hfind _ ih => rw [walk_link hplain hfind]; exact ih

/-- A walk that follows links arrives where names and links lead. -/
theorem arrives_iff : tree.Arrives links directory names spot ↔
    walk tree true links directory names = .ok spot := by
  refine ⟨Arrives.walk, fun h => ?_⟩
  induction links, directory, names using walk_induction tree with
  | nil links directory =>
      rw [walk_nil] at h
      cases h
      exact .nil links directory
  | dot links directory rest ih => exact .dot (ih (by rwa [walk_dot] at h))
  | dots links directory rest ih => exact .dots (ih (by rwa [walk_dots] at h))
  | long links directory name rest hdot hdots hlong =>
      rw [walk_long _ _ _ _ hdot hdots hlong] at h
      cases h
  | absent links directory name rest hplain hfind =>
      rw [walk_plain _ _ _ _ hplain, hfind] at h
      cases rest with
      | nil => cases h; exact .vacant links hplain hfind
      | cons next rest => cases h
  | file links directory name rest bytes modified hplain hfind =>
      rw [walk_plain _ _ _ _ hplain, hfind] at h
      cases rest with
      | nil => cases h; exact .file links hplain hfind
      | cons next rest => cases h
  | directory links directory name rest hplain hfind ih =>
      rw [walk_plain _ _ _ _ hplain, hfind] at h
      exact .directory hplain hfind (ih h)
  | lastLink directory name rest target hplain hfind =>
      rw [walk_link hplain hfind] at h
      cases h
  | link links directory name rest target hplain hfind ih =>
      rw [walk_link hplain hfind] at h
      exact .link hplain hfind (ih h)

/-- A link that may still be followed is not missed when more may be. -/
theorem Arrives.of_le {more : Nat} (h : tree.Arrives links directory names spot)
    (hle : links ≤ more) : tree.Arrives more directory names spot := by
  induction h generalizing more with
  | nil links directory => exact .nil more directory
  | dot _ ih => exact .dot (ih hle)
  | dots _ ih => exact .dots (ih hle)
  | vacant links hplain hfind => exact .vacant more hplain hfind
  | file links hplain hfind => exact .file more hplain hfind
  | directory hplain hfind _ ih => exact .directory hplain hfind (ih hle)
  | link hplain hfind _ ih =>
      obtain ⟨less, rfl⟩ := Nat.exists_eq_succ_of_ne_zero (show more ≠ 0 by omega)
      exact .link hplain hfind (ih (Nat.le_of_succ_le_succ hle))

theorem walk_of_le {more : Nat} (h : walk tree true links directory names = .ok spot)
    (hle : links ≤ more) : walk tree true more directory names = .ok spot :=
  ((arrives_iff.mpr h).of_le hle).walk

/-- Where a path leads does not depend on the number of links that are left. -/
theorem walk_unique {more : Nat} {other : Spot}
    (h : walk tree true links directory names = .ok spot)
    (hother : walk tree true more directory names = .ok other) : spot = other := by
  have hspot := walk_of_le h (Nat.le_max_left links more)
  rw [walk_of_le hother (Nat.le_max_right links more)] at hspot
  exact (Except.ok.inj hspot).symm

/-- What is there without an entry is there with it. -/
theorem find?_of_remove {entry : Entry}
    (h : (tree.apply (.remove route)).find? place = some entry) : tree.find? place = some entry := by
  by_cases hplace : place = route
  · cases route with
    | nil => rwa [hplace] at h ⊢
    | cons first rest =>
        rw [find?_remove tree (List.cons_ne_nil _ _), if_pos hplace] at h
        cases h
  · rwa [find?_apply_of_ne tree (show place ≠ (Edit.remove route).route from hplace)] at h

/-- A path that leads somewhere leads there without an entry, unless it comes to the entry. -/
theorem walk_remove_or (route : Route) (h : walk tree true links directory names = .ok spot) :
    walk (tree.apply (.remove route)) true links directory names = .ok spot ∨
      ∃ less parent name rest, less ≤ links ∧ IsPlainName name ∧ route = parent ++ [name] ∧
        walk tree true less parent (name :: rest) = .ok spot := by
  -- A name is looked up as before, or it is that of the entry.
  have hlook : ∀ directory name, directory ++ [name] = route ∨
      (tree.apply (.remove route)).find? (directory ++ [name]) = tree.find? (directory ++ [name]) :=
    fun directory name => (Classical.em (directory ++ [name] = route)).imp_right fun hne =>
      find?_apply_of_ne tree (show directory ++ [name] ≠ (Edit.remove route).route from hne)
  have harrives := arrives_iff.mpr h
  clear h
  simp only [← arrives_iff]
  induction harrives with
  | nil links directory => exact .inl (.nil links directory)
  | dot _ ih => exact ih.imp_left .dot
  | dots _ ih => exact ih.imp_left .dots
  | @vacant links directory name hplain hfind =>
      rcases hlook directory name with hroute | hsame
      · exact .inr ⟨links, directory, name, [], Nat.le_refl _, hplain, hroute.symm,
          .vacant links hplain hfind⟩
      · exact .inl (.vacant links hplain (hsame.trans hfind))
  | @file links directory name bytes modified hplain hfind =>
      rcases hlook directory name with hroute | hsame
      · exact .inr ⟨links, directory, name, [], Nat.le_refl _, hplain, hroute.symm,
          .file links hplain hfind⟩
      · exact .inl (.file links hplain (hsame.trans hfind))
  | @directory links directory name rest spot hplain hfind hrest ih =>
      rcases hlook directory name with hroute | hsame
      · exact .inr ⟨links, directory, name, rest, Nat.le_refl _, hplain, hroute.symm,
          .directory hplain hfind hrest⟩
      · exact ih.imp_left (.directory hplain (hsame.trans hfind))
  | @link links directory name target rest spot hplain hfind hrest ih =>
      rcases hlook directory name with hroute | hsame
      · exact .inr ⟨links + 1, directory, name, rest, Nat.le_refl _, hplain, hroute.symm,
          .link hplain hfind hrest⟩
      · refine ih.imp (.link hplain (hsame.trans hfind)) ?_
        rintro ⟨less, parent, next, behind, hle, hmet⟩
        exact ⟨less, parent, next, behind, Nat.le_succ_of_le hle, hmet⟩

/-- A path that leads somewhere leads somewhere with its first name alone. -/
theorem walk_first {rest : List String}
    (h : walk tree true links directory (name :: rest) = .ok spot) :
    ∃ first, walk tree true links directory [name] = .ok first ∧
      (first = spot ∨ ∃ place, first = .here place .directory) := by
  rcases List.eq_nil_or_concat rest with rfl | ⟨front, last, rfl⟩
  · exact ⟨spot, h, .inl rfl⟩
  · rw [List.concat_eq_append, ← List.cons_append, walk_append_single,
      show name :: front = [name] ++ front from rfl, reach_append] at h
    cases hreach : reach tree links directory [name] with
    | error errno => rw [hreach] at h; cases h
    | ok found =>
        exact ⟨_, (walk_directory_iff _ _ _ _ _).mpr ⟨found.1, hreach⟩, .inr ⟨found.2, rfl⟩⟩

/-- A link that leads somewhere leads there without its own entry: behind it, it is not met again. -/
theorem walk_behind_link (hplain : IsPlainName name)
    (hfind : tree.find? (parent ++ [name]) = some (.link target))
    (h : walk tree true links parent [name] = .ok spot) :
    ∃ left, links = left + 1 ∧
      walk (tree.apply (.remove (parent ++ [name]))) true left (linkStart parent target)
        (linkNames target) = .ok spot := by
  induction links using Nat.strongRecOn generalizing spot with
  | ind links ih =>
      obtain ⟨left, rfl, hbehind⟩ := walk_link_single hplain hfind h
      rcases walk_remove_or (parent ++ [name]) hbehind with hdone | hmet
      · exact ⟨left, rfl, hdone⟩
      · obtain ⟨less, other, next, rest, hle, -, hroute, hagain⟩ := hmet
        obtain ⟨rfl, hnext⟩ := List.append_inj' hroute rfl
        obtain rfl := List.singleton_inj.mp hnext
        -- It is met again with fewer links, and from there it leads to the same spot.
        obtain ⟨first, hfirst, -⟩ := walk_first hagain
        obtain rfl := walk_unique h hfirst
        obtain ⟨fewer, rfl, hdone⟩ := ih less (Nat.lt_succ_of_le hle) hfirst
        exact ⟨left, rfl, walk_of_le hdone (Nat.le_of_succ_le hle)⟩

end Links

end SourceAtlas.Tree
