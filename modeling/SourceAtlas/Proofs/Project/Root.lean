import SourceAtlas.Project.Root
import SourceAtlas.Proofs.Outcome
import SourceAtlas.Proofs.Tree.Linkless

/-!
# Roots without links

Without links the real route of a path is decided by the path alone. So a project that is named by a
path keeps its root as long as the root is a directory.
-/

namespace SourceAtlas

namespace Tree

variable {tree before after : Tree} {shell : Shell} {root : Route} {location path : Location}

theorem IsLinkless.linkAt?_eq (h : tree.IsLinkless) (shell : Shell) (location : Location) :
    tree.linkAt? shell location = if location.hasNul then .error .nulByte else .ok none := by
  refine linkAt?_of_walk_ne_link fun place target hwalk => ?_
  rcases holds_of_walk hwalk with hentry | hfind
  · cases hentry
  · exact h place target hfind

theorem realPath_of_linkless (hbefore : before.IsLinkless) (hafter : after.IsLinkless)
    (shell : Shell) (location : Location) :
    after.realPath shell location = before.realPath shell location := by
  refine realPath_congr (funext fun path => ?_) location
  rw [hafter.linkAt?_eq, hbefore.linkAt?_eq]

/-- Without links the real path of names starts where they start. -/
theorem IsLinkless.realWith_cases (h : tree.IsLinkless) (shell : Shell)
    (follow : Met → Location → List String → Except Halt (Location × Met)) (met : Met)
    (here : Location) (names : List String) :
    realWith tree shell follow met here names = .error (.failed .nulByte) ∨
      ∃ parts, realWith tree shell follow met here names = .ok (⟨here.root, parts⟩, met) := by
  induction names generalizing here with
  | nil => exact .inr ⟨here.parts, rfl⟩
  | cons name rest ih =>
      have hup : here.up.root = here.root := by
        unfold Location.up
        split <;> rfl
      rw [realWith]
      split
      · exact ih here
      · split
        · exact hup ▸ ih here.up
        · dsimp only
          rw [h.linkAt?_eq]
          cases (here.below [name]).hasNul with
          | true => exact .inl rfl
          | false => exact ih (here.below [name])

theorem absolute_root_of_ne_double {start : Location} (h : start.root ≠ .double) :
    (absolute shell start).root = .single := by
  unfold absolute
  cases hroot : start.root with
  | relative => rfl
  | single => rfl
  | double => exact absurd hroot h

/-- Without links a path resolves to a route from the root. -/
theorem IsLinkless.exists_route_of_realPath (h : tree.IsLinkless)
    (hreal : tree.realPath shell location = .ok path) : ∃ route, path = .ofRoute route := by
  have hfollow : ∀ links, ∃ follow, real tree shell links = realWith tree shell follow := by
    intro links
    cases links with
    | zero => exact ⟨_, rfl⟩
    | succ links => exact ⟨_, rfl⟩
  obtain ⟨follow, hfollow⟩ := hfollow maxNesting
  have hstart : (realStart location).root ≠ .double := by
    unfold realStart
    cases location.root <;> exact nofun
  unfold realPath at hreal
  rw [hfollow] at hreal
  rcases h.realWith_cases shell follow [] (realStart location) location.parts with
    hnul | ⟨parts, hparts⟩
  · rw [hnul] at hreal
    cases hreal
  · rw [hparts] at hreal
    cases hreal
    have hroot : (absolute shell ⟨(realStart location).root, parts⟩).root = .single :=
      absolute_root_of_ne_double hstart
    exact ⟨_, by rw [Location.ofRoute, ← hroot]⟩

theorem resolve_eq_ok_iff : tree.resolve shell location = .ok path ↔
    tree.realPath shell location = .ok path ∧
      (∀ text goal, tree.stat shell path ≠ .error (.refused .loop text goal)) ∧
      tree.stat shell path ≠ .error .nulByte := by
  unfold resolve
  rw [Outcome.bind_eq_ok_iff]
  constructor
  · rintro ⟨real, hreal, hresolve⟩
    split at hresolve
    · cases hresolve
    · cases hresolve
    · next hloop hnul =>
        cases hresolve
        exact ⟨hreal, fun text goal hstat => hloop text goal hstat, hnul⟩
  · rintro ⟨hreal, hloop, hnul⟩
    refine ⟨path, hreal, ?_⟩
    split
    · next text goal hstat => exact absurd hstat (hloop text goal)
    · next hstat => exact absurd hstat hnul
    · rfl

/-- Where there are no links, a path resolves as in any other tree without links. -/
theorem resolve_of_linkless (hbefore : before.IsLinkless) (hafter : after.IsLinkless)
    {route : Route} (h : before.resolve shell location = .ok route)
    (hstat : after.stat shell (.ofRoute route) = .ok (route, .directory)) :
    after.resolve shell location = .ok route := by
  rw [resolve_eq_ok_iff] at h ⊢
  rw [realPath_of_linkless hbefore hafter, hstat]
  exact ⟨h.1, nofun, nofun⟩

theorem isPresent_of_stat {place : Route} (h : tree.stat shell location = .ok (place, .directory)) :
    tree.isPresent shell location = .ok true ∧ tree.isDirectory shell location = .ok true := by
  unfold isPresent isDirectory probe
  rw [h]
  exact ⟨rfl, rfl⟩

theorem isUsable_of_isPresent (h : tree.isPresent shell location = .ok true) :
    location.IsUsable := by
  unfold isPresent probe at h
  cases hstat : tree.stat shell location with
  | ok found => exact (locate_eq_ok_iff.mp (stat_eq_ok_iff.mp hstat)).1
  | error failure =>
      rw [hstat] at h
      cases failure with
      | refused errno path target =>
          dsimp only at h
          split at h <;> cases h
      | nulByte => cases h
      | emptyName path => cases h
      | encoding cause => cases h
      | linkLoop path => cases h
      | noHome => cases h
      | tooDeep => cases h

end Tree

namespace Project

open Outcome

variable {before after : Tree} {shell : Shell} {path : String} {root : Route} {place : Location}

theorem onDisk_eq_ok_iff {α : Type} {outcome : Except DiskFailure α} {a : α} :
    onDisk outcome = .ok a ↔ outcome = .ok a :=
  mapError_eq_ok_iff

/-- Steps behind a check give a result exactly if the check passes and they do. -/
theorem unless_eq_ok_iff {failure : Failure} {passes : Bool} {rest : Except Failure Location} :
    (do
      if !passes then throw failure
      rest) = .ok place ↔ passes = true ∧ rest = .ok place := by
  cases passes with
  | false => exact iff_of_false nofun fun h => Bool.noConfusion h.1
  | true => exact (and_iff_right rfl).symm

/-- A path names a project exactly if it resolves to a directory that can be looked at. -/
theorem root_eq_ok_iff {tree : Tree} :
    Project.root tree shell path = .ok place ↔
      ∃ location, Tree.expandHome shell (.ofText path) = .ok location ∧
        tree.resolve shell location = .ok place ∧
        tree.isPresent shell place = .ok true ∧ tree.isDirectory shell place = .ok true := by
  unfold Project.root
  simp only [bind_eq_ok_iff, onDisk_eq_ok_iff, unless_eq_ok_iff]
  constructor
  · rintro ⟨location, hhome, found, hresolve, _, hpresent, rfl, _, hdirectory, rfl, hfound⟩
    cases hfound
    exact ⟨location, hhome, hresolve, hpresent, hdirectory⟩
  · rintro ⟨location, hhome, hresolve, hpresent, hdirectory⟩
    exact ⟨location, hhome, place, hresolve, true, hpresent, rfl, true, hdirectory, rfl, rfl⟩

/-- A directory on a disk is a project at its own path. -/
theorem root_text_ofRoute {tree : Tree} (hsound : tree.IsSound)
    (hroot : tree.find? root = some .directory) (husable : (Location.ofRoute root).IsUsable)
    (shell : Shell) : Project.root tree shell (Location.ofRoute root).text = .ok root := by
  have hstat : tree.stat shell (.ofRoute root) = .ok (root, .directory) :=
    Tree.stat_ofRoute_iff.mpr ⟨husable, hsound.isReal hroot⟩
  have hstraight : tree.IsStraight [] root := by
    intro front name hfront
    obtain ⟨hplain, hthere⟩ := hsound.isReal hroot front name hfront
    have hname := hsound.names _ _ hroot name (hfront.subset (by simp))
    exact ⟨hplain, hname.ne_empty, fun target hlink => by
      rw [List.nil_append, hthere] at hlink
      cases hlink⟩
  refine root_eq_ok_iff.mpr ⟨.ofRoute root, ?_, ?_, Tree.isPresent_of_stat hstat⟩
  · rw [Location.ofText_text_ofRoute (hsound.names _ _ hroot)]
    rfl
  · exact Tree.resolve_of_straight hstraight husable.1 fun _ _ => by simp [hstat]

/-- Without links the root of a project is a route from the root of the tree. -/
theorem exists_route_of_linkless (h : before.IsLinkless)
    (hroot : Project.root before shell path = .ok place) : ∃ route, place = .ofRoute route := by
  obtain ⟨location, -, hresolve, -⟩ := root_eq_ok_iff.mp hroot
  exact h.exists_route_of_realPath (Tree.resolve_eq_ok_iff.mp hresolve).1

/-- A project without links keeps its root. -/
theorem root_of_linkless (hbefore : before.IsLinkless) (hafter : after.IsLinkless)
    (hplain : after.IsPlain root) (h : Project.root before shell path = .ok root) :
    Project.root after shell path = .ok root := by
  obtain ⟨location, hhome, hresolve, hpresent, -⟩ := root_eq_ok_iff.mp h
  have hstat : after.stat shell (.ofRoute root) = .ok (root, .directory) :=
    Tree.stat_ofRoute_iff.mpr ⟨Tree.isUsable_of_isPresent hpresent, hplain.isReal⟩
  exact root_eq_ok_iff.mpr ⟨location, hhome,
    Tree.resolve_of_linkless hbefore hafter hresolve hstat, Tree.isPresent_of_stat hstat⟩

end Project

end SourceAtlas
