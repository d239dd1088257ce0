import Mathlib.Control.Monad.Basic
import SourceAtlas.Proofs.Project.Root
import SourceAtlas.Proofs.Tree.Real
import SourceAtlas.Proofs.Writing.Turns

/-!
# What a run changes outside the project

The file of a tag is checked by its real place, while the write acts on the path as it stands and
on its temporary file. So a run stays in the project exactly as long as the temporary files do: if
such a file, or the file that a link in its place leads to, is outside, something is changed there.
-/

namespace SourceAtlas

namespace Disk

variable {shell : Shell} {root : Route} {target temporary : Location} {text : Text.Draft}
  {result : Except DiskFailure Unit} {edits : List Edit} {tree : Tree} {volume : Volume}

/-- A write through a temporary file changes no directory. -/
theorem Via.keepsDirectories (hvia : Via tree shell temporary target text result edits) :
    tree.KeepsDirectories (tree.applyAll edits) := by
  have hkept : ∀ {location route}, tree.filePlace? shell false location = some route →
      tree.find? route ≠ some .directory := by
    intro location route hkeep hdirectory
    obtain ⟨left, parent, name, hleads⟩ := Tree.leads_of_place hkeep
    obtain rfl := hleads.eq_of_keep hkeep
    rw [hleads.filePlace?_keep (hleads.isPlainName hkeep), if_pos hdirectory] at hkeep
    cases hkeep
  have hfollowed : ∀ {location place}, tree.filePlace? shell true location = some place →
      tree.find? place ≠ some .directory := by
    intro location place hfollow hdirectory
    rcases (Tree.find?_of_filePlace hfollow).2 with hnone | ⟨old, since, hfile⟩
    · rw [hnone] at hdirectory; cases hdirectory
    · rw [hfile] at hdirectory; cases hdirectory
  refine Tree.keepsDirectories_applyAll ?_
  cases hvia with
  | unreached hkeep hfollow => exact fun _ h => nomatch h
  | blocked hkeep hfollow => simpa [Edit.route] using hkept hkeep
  | dropped hkeep hfollow => simpa [Edit.route] using ⟨hfollowed hfollow, hkept hkeep⟩
  | moved hkeep hfollow hencode hgoal =>
      simpa [Edit.route] using ⟨hfollowed hfollow, hkept hkeep, hkept hgoal⟩

/-! ## One document -/

end Disk

namespace Project

open Disk

variable {shell : Shell} {root : Location} {volume : Volume}

end Project

end SourceAtlas
