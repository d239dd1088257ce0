import SourceAtlas.Project.Writing
import SourceAtlas.Proofs.Disk.Run

/-!
# What the failures of writing concern

Reading, writing and removing a file fails for a reason that concerns this file only. Failures of
another kind come from resolving a path, which writing a file does not ask for.
-/

namespace SourceAtlas

/-! ## Operations on trees -/

namespace Tree

variable {tree : Tree} {shell : Shell} {location : Location} {failure : DiskFailure}

theorem isLocal_of_locate {follow : Bool}
    (h : tree.locate shell follow location = .error failure) : failure.isLocal = true := by
  unfold locate at h
  split at h
  · cases h; rfl
  · split at h
    · cases h; rfl
    · cases hwalk : walk tree follow maxLinks (startOf shell location) location.parts with
      | ok spot => rw [hwalk] at h; cases h
      | error errno => rw [hwalk] at h; cases h; rfl

/-- An operation that looks a location up first fails locally if what comes next does. -/
theorem isLocal_of_locate_bind {α : Type} {follow : Bool} {next : Spot → Except DiskFailure α}
    (h : (tree.locate shell follow location >>= next) = .error failure)
    (hnext : ∀ spot, next spot = .error failure → failure.isLocal = true) :
    failure.isLocal = true := by
  cases hlocate : tree.locate shell follow location with
  | ok spot => exact hnext spot (by rwa [hlocate] at h)
  | error cause =>
      rw [hlocate] at h
      cases h
      exact isLocal_of_locate hlocate

theorem isLocal_of_stat (h : tree.stat shell location = .error failure) :
    failure.isLocal = true := by
  refine isLocal_of_locate_bind h fun spot hspot => ?_
  cases spot with
  | here route entry => cases hspot
  | vacant directory name => cases hspot; rfl

theorem isLocal_of_readBytes (h : tree.readBytes shell location = .error failure) :
    failure.isLocal = true := by
  unfold readBytes at h
  cases hstat : tree.stat shell location with
  | error cause =>
      rw [hstat] at h
      cases h
      exact isLocal_of_stat hstat
  | ok found =>
      rw [hstat] at h
      rcases found with ⟨route, entry⟩
      cases entry with
      | file bytes modified => cases h
      | directory => cases h; rfl
      | link target => cases h; rfl

theorem isLocal_of_readExact (h : tree.readExact shell location = .error failure) :
    failure.isLocal = true := by
  unfold readExact at h
  cases hread : tree.readBytes shell location with
  | error cause =>
      rw [hread] at h
      cases h
      exact isLocal_of_readBytes hread
  | ok bytes =>
      rw [hread] at h
      change (Text.Utf8.decode bytes).mapError _ = _ at h
      cases hdecode : Text.Utf8.decode bytes with
      | ok text => rw [hdecode] at h; cases h
      | error cause => rw [hdecode] at h; cases h; rfl

theorem isLocal_of_isDirectory (h : tree.isDirectory shell location = .error failure) :
    failure.isLocal = true := by
  unfold isDirectory probe at h
  cases hstat : tree.stat shell location with
  | ok found => rw [hstat] at h; cases h
  | error cause =>
      have hlocal := isLocal_of_stat hstat
      rw [hstat] at h
      cases cause with
      | refused errno path target =>
          dsimp only at h
          split at h
          · cases h
          · cases h; rfl
      | nulByte => cases h
      | emptyName path => cases h; exact hlocal
      | encoding cause => cases h; exact hlocal
      | linkLoop path => cases h; exact hlocal
      | noHome => cases h; exact hlocal
      | tooDeep => cases h; exact hlocal

theorem isLocal_of_makeDirectory (h : tree.makeDirectory shell location = .error failure) :
    failure.isLocal = true := by
  refine isLocal_of_locate_bind h fun spot hspot => ?_
  cases spot with
  | here route entry => cases hspot; rfl
  | vacant directory name => cases hspot

theorem isLocal_of_writeBytes {bytes : List UInt8}
    (h : tree.writeBytes shell location bytes = .error failure) : failure.isLocal = true := by
  refine isLocal_of_locate_bind h fun spot hspot => ?_
  cases spot with
  | vacant directory name => cases hspot
  | here route entry =>
      cases entry with
      | file old modified => cases hspot
      | directory => cases hspot; rfl
      | link target => cases hspot; rfl

theorem isLocal_of_unlink (h : tree.unlink shell location = .error failure) :
    failure.isLocal = true := by
  refine isLocal_of_locate_bind h fun spot hspot => ?_
  cases spot with
  | vacant directory name => cases hspot; rfl
  | here route entry =>
      cases entry with
      | file old modified => cases hspot
      | directory => cases hspot; rfl
      | link target => cases hspot

theorem isLocal_betweenPaths {source target : Location} (h : failure.isLocal = true) :
    (betweenPaths source target failure).isLocal = true := by
  cases failure with
  | refused errno path goal => rfl
  | nulByte => rfl
  | emptyName path => rfl
  | encoding cause => rfl
  | linkLoop path => exact h
  | noHome => exact h
  | tooDeep => exact h

theorem isLocal_of_rename {source target : Location}
    (h : tree.rename shell source target = .error failure) : failure.isLocal = true := by
  unfold rename at h
  generalize hrun : (tree.locate shell false source >>= _) = run at h
  cases run with
  | ok edits => cases h
  | error cause =>
      cases h
      refine isLocal_betweenPaths (isLocal_of_locate_bind hrun fun spot hspot => ?_)
      cases spot with
      | vacant directory name => cases hspot; rfl
      | here route entry =>
          dsimp only at hspot
          split at hspot
          · cases hspot; rfl
          · refine isLocal_of_locate_bind hspot fun goal hgoal => ?_
            cases goal with
            | vacant directory name => cases hgoal
            | here place old => cases old <;> cases hgoal; rfl

end Tree

/-! ## Runs -/

namespace Disk

variable (shell : Shell) (target : Location) (text : Text.Draft)

theorem isBuilt_settle (errno : Errno) (path : String) (goal : Option String) :
    IsBuilt (do
      if ← view (·.isDirectory shell target) then return ()
      else throw (.refused errno path goal)) := by
  refine .bind (.view Tree.isLocal_of_isDirectory) fun inside => ?_
  cases inside with
  | true => exact .pure ()
  | false => exact .throw rfl

theorem isBuilt_ensureDirectory : IsBuilt (ensureDirectory shell target) := by
  refine .look fun now => ?_
  split
  · exact .make _
  · exact .throw rfl
  · exact isBuilt_settle shell target _ _ _
  · next hmake => exact .throw (Tree.isLocal_of_makeDirectory hmake)

theorem isBuilt_ensureDirectoriesFuel (fuel : Nat) :
    IsBuilt (ensureDirectoriesFuel shell fuel target) := by
  induction fuel generalizing target with
  | zero => exact isBuilt_ensureDirectory shell target
  | succ fuel ih =>
      refine .look fun now => ?_
      split
      · exact .make _
      · split
        · exact .throw rfl
        · exact .bind (ih target.parent) fun _ => isBuilt_ensureDirectory shell target
      · exact isBuilt_settle shell target _ _ _
      · next hmake => exact .throw (Tree.isLocal_of_makeDirectory hmake)

theorem isBuilt_removeIfPresent : IsBuilt (removeIfPresent shell target) := by
  refine .look fun now => ?_
  split
  · exact .make _
  · exact .pure ()
  · next hunlink => exact .throw (Tree.isLocal_of_unlink hunlink)

theorem isBuilt_fill : IsBuilt (fill shell target text) := by
  unfold fill
  split
  · exact .change Tree.isLocal_of_writeBytes
  · exact .bind (.change Tree.isLocal_of_writeBytes) fun _ => .throw rfl

theorem isBuilt_writeVia (temporary : Location) :
    IsBuilt (writeVia shell temporary target text) := by
  refine .tryCatch (.bind (isBuilt_fill shell temporary text) fun _ =>
    .change Tree.isLocal_of_rename) fun failure hlocal => ?_
  exact .bind (isBuilt_removeIfPresent shell temporary) fun _ => .throw hlocal

theorem isBuilt_writeText : IsBuilt (writeText shell target text) := by
  refine .bind (isBuilt_ensureDirectoriesFuel shell _ _) fun _ => ?_
  split
  · exact .throw rfl
  · exact isBuilt_writeVia shell target text _

theorem isBuilt_writeTag : IsBuilt (writeTag shell target text) :=
  .bind (.view Tree.isLocal_of_readExact) fun _ => isBuilt_writeText shell target _

end Disk

end SourceAtlas
