import SourceAtlas.Proofs.Disk.Locality
import SourceAtlas.Proofs.Disk.Overwrite

/-!
# The turns of documents and tags

The two documents are written first, whatever comes of them, and then the tags get their turns in
order. A turn fails for reasons of its own file only, with one exception: its path cannot be resolved
when the links on it are tangled, and then no later tag gets a turn.
-/

namespace SourceAtlas

namespace Project

open Disk

variable {shell : Shell} {root : Location} {tag : InlineTag} {volume : Volume}

/-! ## One turn -/

/-- What a failed run fails with. -/
def failure? {α : Type} : Except DiskFailure α → Option DiskFailure
  | .ok _ => none
  | .error failure => some failure

theorem resolve_of_isWithin {failure : DiskFailure} {tree : Tree} {location : Location}
    (h : isWithin tree shell root location = .error failure) :
    tree.resolve shell location = .error failure ∧ failure ≠ .nulByte := by
  unfold isWithin at h
  cases hresolve : tree.resolve shell location with
  | ok place => rw [hresolve] at h; cases h
  | error cause =>
      rw [hresolve] at h
      by_cases hnul : cause = .nulByte
      · subst hnul
        cases h
      · cases cause <;> cases h <;> exact ⟨rfl, hnul⟩

/-- A failure that concerns one file is returned. -/
theorem runOn_attempt {run : Disk Unit} (h : IsBuilt run) (volume : Volume) :
    runOn (attempt run) volume =
      (.ok (failure? (runOn run volume).1), (runOn run volume).2) := by
  obtain ⟨result, edits, hrun, hlocal⟩ := h.runOn volume
  unfold attempt
  rw [runOn_tryCatch, runOn_bind, hrun]
  cases result with
  | ok _ => rfl
  | error failure =>
      dsimp only
      rw [if_pos (hlocal failure rfl)]
      rfl

theorem runOn_writePage (page : Page) (text : Text.Draft) (volume : Volume) :
    runOn (writePage shell root page text) volume =
      let written := runOn (writeText shell (pageLocation root page) text) volume
      (.ok (failure? written.1), written.2) :=
  runOn_attempt (isBuilt_writeText shell _ text) volume

/-- What one turn does. -/
theorem runOn_writeTag (shell : Shell) (root : Location) (tag : InlineTag) (volume : Volume) :
    runOn (writeTag shell root tag) volume =
      if tag.selected = false then (.ok .unselected, volume)
      else
        match isWithin volume.tree shell root (.ofText tag.location) with
        | .error failure => (.error failure, volume)
        | .ok false => (.ok .refused, volume)
        | .ok true =>
            let written := runOn (Disk.writeTag shell (.ofText tag.location) tag.suggested) volume
            (.ok (((failure? written.1).map .failed).getD .written), written.2) := by
  unfold writeTag
  cases hselected : tag.selected with
  | false => rfl
  | true =>
      simp only [runOn_bind, runOn_view, Bool.not_true, Bool.false_eq_true, if_false,
        Bool.true_eq_false]
      cases isWithin volume.tree shell root (.ofText tag.location) with
      | error failure => rfl
      | ok within =>
          cases within with
          | false => rfl
          | true =>
              simp only [Bool.not_true, Bool.false_eq_true, if_false, runOn_bind]
              rw [runOn_attempt (isBuilt_writeTag shell _ _)]
              dsimp only
              cases failure? (runOn (Disk.writeTag shell (.ofText tag.location) tag.suggested)
                volume).1 <;> rfl

/-- A turn that ends the writing breaks the operation down. -/
theorem kind_of_runOn_writeTag {failure : DiskFailure}
    (h : (runOn (writeTag shell root tag) volume).1 = .error failure) :
    failure.kind = .breakdown := by
  rw [runOn_writeTag] at h
  split at h
  · cases h
  cases hwithin : isWithin volume.tree shell root (.ofText tag.location) with
  | error cause =>
      rw [hwithin] at h
      cases h
      obtain ⟨hresolve, hnul⟩ := resolve_of_isWithin hwithin
      rcases Tree.resolve_error hresolve with rfl | ⟨path, rfl⟩ | rfl
      · exact absurd rfl hnul
      · rfl
      · rfl
  | ok within =>
      rw [hwithin] at h
      cases within <;> cases h

theorem run_writeTags_cons (shell : Shell) (root : Location) (tag : InlineTag)
    (rest : List InlineTag) (volume : Volume) :
    (writeTags shell root (tag :: rest)).run volume =
      match runOn (writeTag shell root tag) volume with
      | (.error failure, after) => (([], some failure), after)
      | (.ok outcome, after) =>
          let later := (writeTags shell root rest).run after
          (((tag, outcome) :: later.1.1, later.1.2), later.2) := by
  rw [writeTags, StateT.run_bind]
  unfold runOn
  rcases StateT.run (ExceptT.run (writeTag shell root tag)) volume with ⟨result, after⟩
  cases result <;> rfl

theorem run_writeIn (shell : Shell) (root : Location) (overview index : Text.Draft)
    (tags : List InlineTag) (volume : Volume) :
    (writeIn shell root overview index tags).run volume =
      let first := runOn (writeText shell (pageLocation root .overview) overview) volume
      let second := runOn (writeText shell (pageLocation root .index) index) first.2
      let last := (writeTags shell root tags).run second.2
      (⟨root, failure? first.1, failure? second.1, last.1.1, last.1.2⟩, last.2) := by
  have hpage : ∀ page text (before : Volume),
      StateT.run (ExceptT.run (writePage shell root page text)) before =
        let written := runOn (writeText shell (pageLocation root page) text) before
        (.ok (failure? written.1), written.2) := runOn_writePage
  unfold writeIn
  simp only [StateT.run_bind, hpage]
  rfl

theorem run_write (shell : Shell) (tree : Tree) (path : String) (overview index : Text.Draft)
    (tags : List InlineTag) :
    (write shell path overview index tags).run tree =
      match Project.root tree shell path with
      | .error failure => (.error failure, tree)
      | .ok root =>
          let written := (writeIn shell root overview index tags).run { tree := tree }
          (.ok written.1, written.2.tree) := by
  unfold write
  rw [StateT.run_bind, StateT.run_get]
  change StateT.run (match Project.root tree shell path with
    | .error failure => pure (Except.error failure)
    | .ok root => do
        return Except.ok (← writeIn shell root overview index tags) :
      StateM Tree (Except Failure WriteReport)) tree = _
  cases Project.root tree shell path with
  | error failure => rfl
  | ok root =>
      dsimp only
      generalize writeIn shell root overview index tags = run
      rfl

end Project

end SourceAtlas
