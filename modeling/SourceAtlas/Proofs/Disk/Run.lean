import SourceAtlas.Proofs.Tree.Entries
import SourceAtlas.Tree.Disk

/-!
# Runs on a volume

A run ends with a result or a failure, and what it did before a failure stays done. The lemmas here
take a run apart at its steps; the two properties below hold of whatever is put together from
operations on the tree.
-/

namespace SourceAtlas

namespace Volume

@[simp] theorem edit_nil (volume : Volume) : volume.edit [] = volume := by
  cases volume
  simp [edit]

@[simp] theorem edit_edit (volume : Volume) (first second : List Edit) :
    (volume.edit first).edit second = volume.edit (first ++ second) := by
  simp [edit, Tree.applyAll_append]

@[simp] theorem edit_tree (volume : Volume) (edits : List Edit) :
    (volume.edit edits).tree = volume.tree.applyAll edits := rfl

@[simp] theorem edit_edits (volume : Volume) (edits : List Edit) :
    (volume.edit edits).edits = volume.edits ++ edits := rfl

end Volume

namespace Disk

variable {α β : Type}

/-- What comes of a run, and the volume after it. -/
def runOn (run : Disk α) (volume : Volume) : Except DiskFailure α × Volume :=
  (ExceptT.run run).run volume

/-! ## Steps -/

@[simp] theorem runOn_pure (result : α) (volume : Volume) :
    runOn (pure result) volume = (.ok result, volume) := rfl

@[simp] theorem runOn_throw (failure : DiskFailure) (volume : Volume) :
    runOn (throw failure : Disk α) volume = (.error failure, volume) := rfl

theorem runOn_bind (run : Disk α) (next : α → Disk β) (volume : Volume) :
    runOn (run >>= next) volume =
      match runOn run volume with
      | (.ok result, after) => runOn (next result) after
      | (.error failure, after) => (.error failure, after) := by
  simp only [runOn, ExceptT.run_bind, StateT.run_bind]
  rcases StateT.run (ExceptT.run run) volume with ⟨result, after⟩
  cases result <;> rfl

theorem runOn_tryCatch (run : Disk α) (handle : DiskFailure → Disk α) (volume : Volume) :
    runOn (tryCatch run handle) volume =
      match runOn run volume with
      | (.ok result, after) => (.ok result, after)
      | (.error failure, after) => runOn (handle failure) after := by
  change runOn (ExceptT.tryCatch run handle) volume = _
  unfold runOn ExceptT.tryCatch ExceptT.run ExceptT.mk
  rw [StateT.run_bind]
  rcases StateT.run run volume with ⟨result, after⟩
  cases result <;> rfl

theorem runOn_tree_bind (next : Tree → Disk α) (volume : Volume) :
    runOn (tree >>= next) volume = runOn (next volume.tree) volume := by
  rw [runOn_bind]
  rfl

theorem runOn_view (look : Tree → Except DiskFailure α) (volume : Volume) :
    runOn (view look) volume = (look volume.tree, volume) := by
  unfold view
  rw [runOn_tree_bind]
  cases look volume.tree <;> rfl

theorem runOn_change (operation : Tree → Except DiskFailure (List Edit)) (volume : Volume) :
    runOn (change operation) volume =
      match operation volume.tree with
      | .ok edits => (.ok (), volume.edit edits)
      | .error failure => (.error failure, volume) := by
  unfold change
  rw [runOn_bind]
  change runOn (match operation volume.tree with
    | .ok edits => make edits
    | .error failure => throw failure) volume = _
  cases operation volume.tree <;> rfl

@[simp] theorem runOn_make (edits : List Edit) (volume : Volume) :
    runOn (make edits) volume = (.ok (), volume.edit edits) := rfl

/-! ## Runs put together from operations -/

/-- The run is put together from operations on the tree, and what it fails with concerns one file
only. -/
inductive IsBuilt : {α : Type} → Disk α → Prop
  | pure {α : Type} (result : α) : IsBuilt (pure result)
  | throw {α : Type} {failure : DiskFailure} (h : failure.isLocal = true) :
      IsBuilt (throw failure : Disk α)
  | make (edits : List Edit) : IsBuilt (make edits)
  | view {α : Type} {look : Tree → Except DiskFailure α}
      (h : ∀ {tree failure}, look tree = .error failure → failure.isLocal = true) :
      IsBuilt (view look)
  | change {operation : Tree → Except DiskFailure (List Edit)}
      (h : ∀ {tree failure}, operation tree = .error failure → failure.isLocal = true) :
      IsBuilt (change operation)
  | look {α : Type} {next : Tree → Disk α} (h : ∀ now, IsBuilt (next now)) :
      IsBuilt (tree >>= next)
  | bind {α β : Type} {run : Disk α} {next : α → Disk β} (hrun : IsBuilt run)
      (hnext : ∀ result, IsBuilt (next result)) : IsBuilt (run >>= next)
  | tryCatch {α : Type} {run : Disk α} {handle : DiskFailure → Disk α} (hrun : IsBuilt run)
      (hhandle : ∀ failure, failure.isLocal = true → IsBuilt (handle failure)) :
      IsBuilt (tryCatch run handle)

/-- What comes of a run that is put together from operations. -/
theorem IsBuilt.runOn {run : Disk α} (h : IsBuilt run) (volume : Volume) :
    ∃ result edits, runOn run volume = (result, volume.edit edits) ∧
      ∀ failure, result = .error failure → failure.isLocal = true := by
  induction h generalizing volume with
  | pure result => exact ⟨.ok result, [], by simp, fun _ h => nomatch h⟩
  | @throw α failure h =>
      exact ⟨.error failure, [], by simp, fun _ hother => by cases hother; exact h⟩
  | make edits => exact ⟨.ok (), edits, rfl, fun _ h => nomatch h⟩
  | @view α look h => exact ⟨look volume.tree, [], by simp [runOn_view], fun _ hlook => h hlook⟩
  | @change operation h =>
      rw [runOn_change]
      cases hop : operation volume.tree with
      | ok edits => exact ⟨.ok (), edits, rfl, fun _ h => nomatch h⟩
      | error cause =>
          exact ⟨.error cause, [], by simp, fun _ hother => by cases hother; exact h hop⟩
  | look h ih =>
      rw [runOn_tree_bind]
      exact ih volume.tree volume
  | bind hrun hnext ihrun ihnext =>
      obtain ⟨first, edits, hfirst, hlocal⟩ := ihrun volume
      rw [runOn_bind, hfirst]
      cases first with
      | error failure =>
          exact ⟨.error failure, edits, rfl, fun _ h => by cases h; exact hlocal _ rfl⟩
      | ok result =>
          obtain ⟨last, more, hlast, hlocal⟩ := ihnext result (volume.edit edits)
          exact ⟨last, edits ++ more, by simp [hlast], hlocal⟩
  | tryCatch hrun hhandle ihrun ihhandle =>
      obtain ⟨first, edits, hfirst, hlocal⟩ := ihrun volume
      rw [runOn_tryCatch, hfirst]
      cases first with
      | ok result => exact ⟨.ok result, edits, rfl, fun _ h => nomatch h⟩
      | error failure =>
          obtain ⟨last, more, hlast, hlocal⟩ :=
            ihhandle failure (hlocal _ rfl) (volume.edit edits)
          exact ⟨last, edits ++ more, by simp [hlast], hlocal⟩

end Disk

end SourceAtlas
