import SourceAtlas.Project.Generation
import SourceAtlas.Proofs.Outcome

/-!
# Generating is scanning

Generating a project fails for its root or its settings only. Otherwise it gives the scan of the
root and the documents that are made from it.
-/

namespace SourceAtlas.Project

open Outcome

variable {tree : Tree} {shell : Shell} {reply : Git.Reply} {path : String} {root : Location}
  {given : Option Settings} {generation : Generation}

/-- The settings of a run: those that are given, or those of the project if none are. -/
def AreChosen [Yaml.Reader] (tree : Tree) (shell : Shell) (root : Location) (given : Option Settings)
    (settings : Settings) : Prop :=
  match given with
  | some chosen => settings = chosen
  | none => Project.settings tree shell root = .ok settings

theorem overview_eq (tree : Tree) (shell : Shell) (reply : Git.Reply) (settings : Settings)
    (root : Location) :
    (Generation.ofTree tree shell reply settings root).overview =
      Page.text .overview (nameOf root) (Scan.ofTree tree shell reply settings root).summary := by
  rw [Generation.ofTree]

theorem index_eq (tree : Tree) (shell : Shell) (reply : Git.Reply) (settings : Settings)
    (root : Location) :
    (Generation.ofTree tree shell reply settings root).index =
      Page.text .index (nameOf root) (Scan.ofTree tree shell reply settings root).summary := by
  rw [Generation.ofTree]

theorem generate_eq [Yaml.Reader] (hroot : Project.root tree shell path = .ok root) (settings : Settings) :
    generate tree shell reply path (some settings) =
      .ok (.ofTree tree shell reply settings root) := by
  unfold generate
  rw [hroot]
  rfl

/-- What is generated comes from the scan of the root. -/
theorem exists_of_generate [Yaml.Reader] (h : generate tree shell reply path given = .ok generation) :
    ∃ root settings, Project.root tree shell path = .ok root ∧
      AreChosen tree shell root given settings ∧
      generation = .ofTree tree shell reply settings root := by
  unfold generate at h
  obtain ⟨root, hroot, h⟩ := bind_eq_ok_iff.mp h
  cases given with
  | some chosen =>
      cases h
      exact ⟨root, chosen, hroot, rfl, rfl⟩
  | none =>
      obtain ⟨settings, hsettings, h⟩ := bind_eq_ok_iff.mp h
      cases h
      exact ⟨root, settings, hroot, hsettings, rfl⟩

end SourceAtlas.Project
