import Mathlib.Control.Monad.Basic
import SourceAtlas.Proofs.Writing.Turns

/-!
# Documents and tags are written independently

Whatever comes of a document or a tag, the next one gets its turn, and the report says of each one
whether its own write succeeded. Two things are not so. A selected tag with a path whose links are
tangled ends the writing, with no report and no turn for the tags behind it. And a failed tag leaves
its file alone unless the temporary file of the file is a link back to it and the tag has no encoding.
-/

namespace SourceAtlas.Project

open Disk

variable {shell : Shell} {root : Location}

/-! ## The tags of a run -/

theorem kind_of_stopped {tags : List InlineTag} {volume : Volume} {failure : DiskFailure}
    (h : ((writeTags shell root tags).run volume).1.2 = some failure) :
    failure.kind = .breakdown := by
  induction tags generalizing volume with
  | nil => cases h
  | cons tag rest ih =>
      rw [run_writeTags_cons] at h
      cases hrun : runOn (writeTag shell root tag) volume with
      | mk result after =>
          rw [hrun] at h
          cases result with
          | error cause =>
              cases h
              exact kind_of_runOn_writeTag (congrArg Prod.fst hrun)
          | ok outcome => exact ih h

end SourceAtlas.Project
