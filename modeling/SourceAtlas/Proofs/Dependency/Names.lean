import SourceAtlas.Proofs.Dependency.Edges
import SourceAtlas.Proofs.Path.Segment

/-!
# Names that reach files

A name reaches the last file that has it as its path, with the extension or without. Only where no
file has it so, it reaches the first file with this bare name, in whatever directory the file is.
-/

namespace SourceAtlas

namespace Dependency

open SourceAtlas.Path

variable {files : List SourceFile} {file : SourceFile} {name : List Char}

/-- The name is the path of the file, or this path without its extension. -/
def HasName (file : SourceFile) (name : List Char) : Prop :=
  file.path.toList = name ∨ withoutExtension file.path.toList = name

instance (file : SourceFile) (name : List Char) : Decidable (HasName file name) :=
  inferInstanceAs (Decidable (_ ∨ _))

/-- The last segment of the path of a file, without its extension. -/
def bareName (file : SourceFile) : List Char := withoutExtension (lastSegment file.path.toList)

/-- The file is the last one that has the name. -/
def IsLastNamed (files : List SourceFile) (name : List Char) (file : SourceFile) : Prop :=
  HasName file name ∧
    ∃ front back, files = front ++ file :: back ∧ ∀ other ∈ back, ¬ HasName other name

/-- The file is the first one with the bare name. -/
def IsFirstBare (files : List SourceFile) (name : List Char) (file : SourceFile) : Prop :=
  bareName file = name ∧
    ∃ front back, files = front ++ file :: back ∧ ∀ other ∈ front, bareName other ≠ name

/-- Files that have the name are looked for from behind, and then bare names from the front. -/
theorem find?_eq_or (files : List SourceFile) (name : List Char) :
    find? (files.map namesOf) name =
      (files.reverse.find? (HasName · name)).or (files.find? (bareName · = name)) := by
  induction files using List.reverseRecOn with
  | nil => rfl
  | append_singleton files file ih =>
      have hnamed : ((namesOf file).path = name ∨ (namesOf file).trimmed = name) ↔
        HasName file name := by simp only [namesOf, HasName]
      have hbare : (namesOf file).bare = name ↔ bareName file = name := by
        simp only [namesOf, bareName]
      rw [List.map_append, List.map_singleton, find?_append_singleton, List.reverse_append,
        List.reverse_singleton, List.singleton_append, List.find?_cons, List.find?_append, ih]
      simp only [hnamed, hbare]
      by_cases h : HasName file name
      · simp [h, namesOf]
      · by_cases hfile : bareName file = name
        · cases files.reverse.find? (HasName · name) <;>
            cases files.find? (bareName · = name) <;> simp [h, hfile, namesOf]
        · simp [h, hfile]

/-- A change of the files that leaves their paths alone leaves the names that reach them alone. -/
theorem find?_map {change : SourceFile → SourceFile} (hpath : ∀ file, (change file).path = file.path)
    (files : List SourceFile) (target : List Char) :
    find? ((files.map change).map namesOf) target =
      (find? (files.map namesOf) target).map change := by
  have hname : ∀ file, HasName (change file) = HasName file := fun file => by
    unfold HasName
    rw [hpath]
  have hbare : ∀ file, bareName (change file) = bareName file := fun file => by
    unfold bareName
    rw [hpath]
  rw [find?_eq_or, find?_eq_or, ← List.map_reverse, List.find?_map, List.find?_map, Option.map_or]
  simp only [Function.comp_def, hname, hbare]

theorem resolve?_map {change : SourceFile → SourceFile}
    (hpath : ∀ file, (change file).path = file.path) (files : List SourceFile)
    (importer target : String) :
    resolve? ((files.map change).map namesOf) importer target =
      (resolve? (files.map namesOf) importer target).map change := by
  unfold resolve?
  rw [List.map_findSome?]
  exact congrArg₂ _ (funext fun _ => find?_map hpath files _) rfl

/-- A name reaches the last file that has it, or else the first file with this bare name. -/
theorem find?_eq_some_iff :
    find? (files.map namesOf) name = some file ↔ IsLastNamed files name file ∨
      ((∀ other ∈ files, ¬ HasName other name) ∧ IsFirstBare files name file) := by
  rw [find?_eq_or, Option.or_eq_some_iff, List.find?_eq_some_iff_append, List.find?_eq_none,
    List.find?_eq_some_iff_append]
  refine or_congr ?_ (and_congr ?_ ?_)
  · simp only [IsLastNamed, decide_eq_true_eq, Bool.not_eq_true', decide_eq_false_iff_not]
    refine and_congr_right fun _ => ⟨?_, ?_⟩
    · rintro ⟨back, front, hfiles, hback⟩
      refine ⟨front.reverse, back.reverse, ?_, by simpa using hback⟩
      simpa using congrArg List.reverse hfiles
    · rintro ⟨front, back, rfl, hback⟩
      exact ⟨back.reverse, front.reverse, by simp, by simpa using hback⟩
  · simp
  · simp [IsFirstBare]

theorem slash_not_mem_bareName (file : SourceFile) : '/' ∉ bareName file := fun hmem =>
  slash_not_mem_lastSegment _ (withoutExtension_subset _ hmem)

theorem IsLastNamed.eq {other : SourceFile} (h : IsLastNamed files name file)
    (hother : IsLastNamed files name other) : file = other := by
  have hfile := find?_eq_some_iff.mpr (.inl h)
  rw [find?_eq_some_iff.mpr (.inl hother)] at hfile
  exact (Option.some.inj hfile).symm

/-- Where some file has a name, one of them is the last. -/
theorem exists_isLastNamed (hfile : file ∈ files) (h : HasName file name) :
    ∃ last, IsLastNamed files name last ∧ find? (files.map namesOf) name = some last := by
  have hfound : ((files.reverse.find? (HasName · name))).isSome :=
    List.find?_isSome.mpr ⟨file, List.mem_reverse.mpr hfile, decide_eq_true h⟩
  obtain ⟨last, hlast⟩ := Option.isSome_iff_exists.mp hfound
  have hfind : find? (files.map namesOf) name = some last := by
    rw [find?_eq_or, hlast, Option.some_or]
  refine ⟨last, ?_, hfind⟩
  rcases find?_eq_some_iff.mp hfind with hnamed | ⟨hnone, -⟩
  · exact hnamed
  · exact absurd h (hnone file hfile)

/-- A file that a path reaches: the path is one of its names, as it stands, as that of a directory
with an index, or without its extension. A path without slashes also reaches a file by its bare
name, if no file has the name otherwise. -/
def Reaches (files : List SourceFile) (path : List Char) (file : SourceFile) : Prop :=
  (∃ name ∈ candidates path, HasName file name) ∨
    ('/' ∉ path ∧ ∃ name ∈ [path, withoutExtension path],
      (∀ other ∈ files, ¬ HasName other name) ∧ IsFirstBare files name file)

/-- What a path is resolved to is a file that it reaches. -/
theorem reaches_of_findSome? {path : List Char}
    (h : (candidates path).findSome? (find? (files.map namesOf)) = some file) :
    Reaches files path file := by
  obtain ⟨name, hname, hfind⟩ := List.exists_of_findSome?_eq_some h
  rcases find?_eq_some_iff.mp hfind with hnamed | ⟨hnone, hbare⟩
  · exact .inl ⟨name, hname, hnamed.1⟩
  · have hslash : '/' ∉ name := hbare.1 ▸ slash_not_mem_bareName file
    simp only [candidates, List.mem_cons, List.not_mem_nil, or_false] at hname
    rcases hname with rfl | rfl | rfl
    · exact .inr ⟨hslash, name, List.mem_cons_self, hnone, hbare⟩
    · exact absurd (List.mem_append_right _ (by decide)) hslash
    · refine .inr ⟨?_, _, List.mem_cons_of_mem _ List.mem_cons_self, hnone, hbare⟩
      rwa [slash_mem_withoutExtension_iff] at hslash

end Dependency

end SourceAtlas
