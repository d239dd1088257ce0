import SourceAtlas.Project.Generation
import SourceAtlas.Project.Status
import SourceAtlas.Project.Writing
import SourceAtlas.Proofs.Outcome
import SourceAtlas.Proofs.Writing.Turns
import SourceAtlas.Yaml.Document

/-!
# Paths that name no project

A path that does not lead to a directory is refused by generating, writing and status alike, and
nothing is changed. The refusal says so unless the system fails on the path in another way: nobody
has its home directory, its links are tangled, or it is too long to be looked up.
-/

namespace SourceAtlas

open Outcome

namespace Tree

variable {tree : Tree} {shell : Shell} {location : Location}

end Tree

namespace Project

variable {tree : Tree} {shell : Shell} {path : String} {location root : Location}

/-- The location of a path when its home directory and its links are put in, as far as they can be. -/
def IsPlaceOf (tree : Tree) (shell : Shell) (path : String) (root : Location) : Prop :=
  ∃ location, Tree.expandHome shell (.ofText path) = .ok location ∧
    tree.realPath shell location = .ok root

theorem settings_kind (cause : Settings.LoadError) : cause.kind ≠ .absent := by
  cases cause with
  | badScalar cause =>
      cases htold : cause.message? <;> simp [Settings.LoadError.kind, htold]
  | refused cause | encoding cause | tooDeep | longSensitivity | hugeThreshold =>
      exact FailureKind.noConfusion

/-- A link that leads to itself. -/
def circle : Tree := ⟨[(["loop"], .link "loop")]⟩

end Project

end SourceAtlas
