import SourceAtlas.Proofs.Project.Generation
import SourceAtlas.Proofs.Writing.Independence

/-!
# Generating and delivering

Whoever asks for an atlas gives a path and settings that override those of the project. What is
generated is delivered by writing it; a writing that is broken off is a failure like any other.
-/

namespace SourceAtlas

/-- Each tag suggests a text, without surrogates. -/
def SuggestsTexts (tags : List InlineTag) : Prop :=
  ∀ tag ∈ tags, ∃ suggested : String, tag.suggested = .ofString suggested

theorem InlineTag.suggestsTexts_proposals (current : SourceFile → Option String)
    (weights : Sign.Weights) (domains : List Domain) (limit : Int) (files : List SourceFile) :
    SuggestsTexts (proposals current weights domains limit files) := by
  intro tag htag
  obtain ⟨ranked, -, rfl⟩ := List.mem_map.mp htag
  exact ⟨_, rfl⟩

namespace Project

variable {tree : Tree} {shell : Shell} {reply : Git.Reply} {path : String}
  {overrides : Settings.Overrides} {generation : Generation}

/-- Generate the documents of the project at a path with some settings overridden. -/
def generateWith [Yaml.Reader] (tree : Tree) (shell : Shell) (reply : Git.Reply) (path : String)
    (overrides : Settings.Overrides) : Except Failure Generation := do
  let settings ← settingsWith tree shell path overrides
  generate tree shell reply path (some settings)

/-- Writing that was broken off is a failure. -/
def settled (report : WriteReport) : Except Failure WriteReport :=
  match report.stopped with
  | some cause => .error (.disk cause)
  | none => .ok report

/-- Write what was generated. -/
def deliver (shell : Shell) (path : String) (generation : Generation) (tree : Tree) :
    Except Failure WriteReport × Tree :=
  let written :=
    (write shell path generation.overview generation.index generation.scan.tags).run tree
  (written.1.bind settled, written.2)

theorem suggestsTexts_of_generateWith [Yaml.Reader]
    (h : generateWith tree shell reply path overrides = .ok generation) :
    SuggestsTexts generation.scan.tags := by
  obtain ⟨settings, -, hgenerate⟩ := Outcome.bind_eq_ok_iff.mp h
  obtain ⟨root, chosen, -, -, rfl⟩ := exists_of_generate hgenerate
  apply InlineTag.suggestsTexts_proposals

/-- Writing what was generated does not fail unless it breaks down: the project was there. -/
theorem kind_of_deliver [Yaml.Reader]
    (hok : generateWith tree shell reply path overrides = .ok generation) {cause : Failure}
    (h : (deliver shell path generation tree).1 = .error cause) : cause.kind = .breakdown := by
  obtain ⟨settings, -, hgenerate⟩ := Outcome.bind_eq_ok_iff.mp hok
  obtain ⟨root, chosen, hroot, -, -⟩ := exists_of_generate hgenerate
  unfold deliver at h
  dsimp only at h
  rw [run_write, hroot] at h
  dsimp only [Except.bind] at h
  rw [run_writeIn] at h
  unfold settled at h
  dsimp only at h
  split at h
  · next failure hstopped =>
      cases h
      exact kind_of_stopped hstopped
  · cases h

end Project

end SourceAtlas
