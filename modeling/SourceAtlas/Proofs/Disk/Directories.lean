import SourceAtlas.Proofs.Disk.Write
import SourceAtlas.Proofs.Tree.Real

/-!
# Making directories

Nothing is made where a directory is. The directory of a file that can be read is there, so a file
that is written over another one changes nothing but the file and its temporary file.
-/

namespace SourceAtlas

namespace Tree

variable {tree : Tree} {shell : Shell} {location : Location} {route : Route} {entry : Entry}

/-- Where something is, something is when the last link is left alone. -/
theorem locate_keep_of_here (h : tree.locate shell true location = .ok (.here route entry)) :
    ∃ place found, tree.locate shell false location = .ok (.here place found) := by
  cases hlast : location.parts.getLast? with
  | none =>
      have husable := (locate_eq_ok_iff.mp h).1
      rw [List.getLast?_eq_none_iff] at hlast
      exact ⟨_, _, locate_eq_ok_iff.mpr ⟨husable, by rw [hlast, walk_nil]⟩⟩
  | some name =>
      rcases leads_or_error tree shell hlast with
        ⟨left, parent, hleads⟩ | herror
      · rw [hleads.locate_eq_ok_iff] at h
        simp only [hleads.locate_eq_ok_iff]
        rcases name_cases name with rfl | rfl | hplain | ⟨hdot, hdots, hlong⟩
        · exact ⟨_, _, by rw [walk_dot, walk_nil]⟩
        · exact ⟨_, _, by rw [walk_dots, walk_nil]⟩
        · rw [walk_single_keep _ _ _ hplain]
          cases hfind : tree.find? (parent ++ [name]) with
          | none =>
              rw [walk_plain _ _ _ _ hplain, hfind] at h
              cases h
          | some found => exact ⟨_, found, rfl⟩
        · rw [walk_long _ _ _ _ hdot hdots hlong] at h
          cases h
      · obtain ⟨failure, hfail⟩ := herror true
        rw [hfail] at h
        cases h

theorem makeDirectory_of_here (h : tree.locate shell false location = .ok (.here route entry)) :
    tree.makeDirectory shell location = .error (.refused .exists location.text) := by
  unfold makeDirectory
  rw [h]
  rfl

theorem isDirectory_of_stat (h : tree.stat shell location = .ok (route, .directory)) :
    tree.isDirectory shell location = .ok true := by
  unfold isDirectory probe
  rw [h]
  rfl

theorem stat_of_isDirectory (h : tree.isDirectory shell location = .ok true) :
    ∃ place, tree.stat shell location = .ok (place, .directory) := by
  unfold isDirectory probe at h
  cases hstat : tree.stat shell location with
  | ok found =>
      obtain ⟨place, entry⟩ := found
      rw [hstat] at h
      cases entry with
      | directory => exact ⟨place, rfl⟩
      | file bytes modified => cases h
      | link target => cases h
  | error failure =>
      rw [hstat] at h
      cases failure with
      | refused errno path goal =>
          dsimp only at h
          split at h <;> cases h
      | _ => cases h

end Tree

namespace Disk

variable {shell : Shell} {location target : Location} {volume : Volume}

/-- Where the parent is not missing, the directory alone is made. -/
theorem runOn_ensureDirectories_eq
    (h : ∀ path goal,
      volume.tree.makeDirectory shell location ≠ .error (.refused .noEntry path goal)) :
    runOn (ensureDirectories shell location) volume =
      runOn (ensureDirectory shell location) volume := by
  unfold ensureDirectories
  cases location.parts.length with
  | zero => rfl
  | succ fuel =>
      unfold ensureDirectoriesFuel ensureDirectory
      rw [runOn_tree_bind, runOn_tree_bind]
      cases hmake : volume.tree.makeDirectory shell location with
      | ok edits => rfl
      | error failure =>
          cases failure with
          | refused errno path goal =>
              by_cases herrno : errno = .noEntry
              · exact absurd (herrno ▸ hmake) (h path goal)
              · cases errno <;> first | rfl | exact absurd rfl herrno
          | _ => rfl

theorem runOn_ensureDirectories_of_stat {route : Route}
    (h : volume.tree.stat shell location = .ok (route, .directory)) :
    runOn (ensureDirectories shell location) volume = (.ok (), volume) := by
  obtain ⟨place, found, hkeep⟩ := Tree.locate_keep_of_here (Tree.stat_eq_ok_iff.mp h)
  have hmake := Tree.makeDirectory_of_here hkeep
  have hinside := Tree.isDirectory_of_stat h
  rw [runOn_ensureDirectories_eq (by rw [hmake]; simp)]
  unfold ensureDirectory
  rw [runOn_tree_bind, hmake]
  simp only [runOn_bind, runOn_view, hinside]
  rfl

/-- Where a directory cannot be made for another reason than a missing parent, nothing is made. -/
theorem runOn_ensureDirectories_of_error {failure : DiskFailure}
    (h : volume.tree.makeDirectory shell location = .error failure)
    (hparent : ∀ path goal, failure ≠ .refused .noEntry path goal) :
    ∃ result, runOn (ensureDirectories shell location) volume = (result, volume) ∧
      (result = .ok () → ∃ place, volume.tree.stat shell location = .ok (place, .directory)) := by
  have hthrow : ∀ cause : DiskFailure, ∃ result,
      runOn (throw cause : Disk Unit) volume = (result, volume) ∧
        (result = .ok () → ∃ place, volume.tree.stat shell location = .ok (place, .directory)) :=
    fun cause => ⟨.error cause, rfl, fun hwrong => nomatch hwrong⟩
  have hsettle : ∀ errno path goal, ∃ result, runOn (do
      if ← view (·.isDirectory shell location) then return ()
      else throw (.refused errno path goal) : Disk Unit) volume = (result, volume) ∧
        (result = .ok () → ∃ place, volume.tree.stat shell location = .ok (place, .directory)) := by
    intro errno path goal
    rw [runOn_bind, runOn_view]
    cases hinside : volume.tree.isDirectory shell location with
    | error failure => exact hthrow failure
    | ok inside =>
        cases inside with
        | false => exact hthrow _
        | true => exact ⟨.ok (), rfl, fun _ => Tree.stat_of_isDirectory hinside⟩
  rw [runOn_ensureDirectories_eq fun path goal => by
    rw [h]
    exact fun hsame => hparent path goal (Except.error.inj hsame)]
  unfold ensureDirectory
  rw [runOn_tree_bind, h]
  split
  · next hok => cases hok
  · exact hthrow _
  · exact hsettle _ _ _
  · exact hthrow _

theorem runOn_ensureDirectories_of_ok {edits : List Edit}
    (h : volume.tree.makeDirectory shell location = .ok edits) :
    runOn (ensureDirectories shell location) volume = (.ok (), volume.edit edits) := by
  rw [runOn_ensureDirectories_eq (by rw [h]; simp)]
  unfold ensureDirectory
  rw [runOn_tree_bind, h]
  rfl

/-- A directory in a real one is there, cannot be made, or is the only thing that is made. -/
theorem runOn_ensureDirectories_of_real (shell : Shell) (location : Location) {root : Route}
    {name : String}
    (hreal : volume.tree.IsReal root) (hroot : location.root ≠ .relative)
    (hparts : location.parts = root ++ [name]) (hplain : Tree.IsPlainName name) :
    ∃ result edits, runOn (ensureDirectories shell location) volume =
        (result, volume.edit edits) ∧
      ((edits = [] ∧ (location.IsUsable → volume.tree.find? (root ++ [name]) ≠ none) ∧
          (result = .ok () →
            ∃ place, volume.tree.stat shell location = .ok (place, .directory))) ∨
        (location.IsUsable ∧ volume.tree.find? (root ++ [name]) = none ∧ result = .ok () ∧
          edits = [.put (root ++ [name]) .directory])) := by
  by_cases husable : location.IsUsable
  · have hleads := hreal.leads shell husable hroot hparts
    have hwalk := Tree.walk_single_keep volume.tree Tree.maxLinks root hplain
    cases hfind : volume.tree.find? (root ++ [name]) with
    | none =>
        have hmake : volume.tree.makeDirectory shell location =
            .ok [.put (root ++ [name]) .directory] := by
          unfold Tree.makeDirectory
          rw [hleads.locate, hwalk, hfind]
          rfl
        exact ⟨_, _, runOn_ensureDirectories_of_ok hmake, .inr ⟨husable, rfl, rfl, rfl⟩⟩
    | some entry =>
        have hhere : volume.tree.locate shell false location = .ok (.here (root ++ [name]) entry) := by
          rw [hleads.locate, hwalk, hfind]
          rfl
        obtain ⟨result, hrun, hstat⟩ := runOn_ensureDirectories_of_error
          (Tree.makeDirectory_of_here hhere) (fun _ _ => by simp)
        exact ⟨result, [], by rw [hrun, Volume.edit_nil], .inl ⟨rfl, fun _ => by simp, hstat⟩⟩
  · obtain ⟨failure, hparent, hlocate⟩ := Tree.locate_of_not_usable shell husable
    have hmake : volume.tree.makeDirectory shell location = .error failure := by
      unfold Tree.makeDirectory
      rw [hlocate]
      rfl
    obtain ⟨result, hrun, hstat⟩ := runOn_ensureDirectories_of_error hmake hparent
    exact ⟨result, [], by rw [hrun, Volume.edit_nil],
      .inl ⟨rfl, fun hwrong => absurd hwrong husable, hstat⟩⟩

/-- Once its directory is there, a file is written through its temporary file. -/
theorem runOn_writeText_of_ensured {after : Volume} {temporary : Location}
    (hensure : runOn (ensureDirectories shell target.parent) volume = (.ok (), after))
    (happend : target.appending? temporaryEnding = some temporary) (text : Text.Draft) :
    runOn (writeText shell target text) volume =
      runOn (writeVia shell temporary target text) after := by
  unfold writeText
  rw [runOn_bind, hensure]
  simp only [happend]

end Disk

end SourceAtlas
