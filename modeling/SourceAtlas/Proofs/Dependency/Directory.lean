import SourceAtlas.Proofs.Dependency.Relative

/-!
# Directory imports

An import that denotes a directory is tried as the path of a file, then as that of the index of the
directory. So it counts on the edge to the index, unless a file elsewhere has the bare name that the
directory has as its path.
-/

namespace SourceAtlas.Dependency

open SourceAtlas.Path

variable {files : List SourceFile} {source index file : SourceFile} {name : String}
  {dir : List Char}

/-- The file is an index of the directory: its name is `index` with an extension. -/
def IsIndexOf (dir : List Char) (file : SourceFile) : Prop :=
  ∃ ending, ending ≠ [] ∧ '.' ∉ ending ∧ '/' ∉ ending ∧
    file.path.toList = dir ++ "/index.".toList ++ ending

theorem IsIndexOf.hasName (h : IsIndexOf dir file) : HasName file (dir ++ "/index".toList) := by
  obtain ⟨ending, -, hdot, hslash, hpath⟩ := h
  have hname : '/' ∉ "index".toList ++ '.' :: ending := by simpa using hslash
  have hsplit : dir ++ "/index.".toList ++ ending =
      dir ++ '/' :: ("index".toList ++ '.' :: ending) := by simp
  have hstem : ∃ c ∈ "index".toList, c ≠ '.' := ⟨'i', by decide, by decide⟩
  refine .inr ?_
  rw [hpath, hsplit, withoutExtension_append hname, splitName_append hdot hstem]
  rfl

theorem find?_eq_none_iff {target : List Char} : find? (files.map namesOf) target = none ↔
    (∀ file ∈ files, ¬ HasName file target) ∧ ∀ file ∈ files, bareName file ≠ target := by
  rw [find?_eq_or, Option.or_eq_none_iff, List.find?_eq_none, List.find?_eq_none]
  simp

theorem IsFirstBare.mem {target : List Char} (h : IsFirstBare files target file) : file ∈ files := by
  obtain ⟨-, front, back, hfiles, -⟩ := h
  exact hfiles ▸ List.mem_append_right _ List.mem_cons_self

/-- Where no file has the path of a directory with an index, the path is resolved to the first file
that has it as its bare name, or else to the last index. -/
theorem findSome?_directory_iff (hindex : index ∈ files) (hof : IsIndexOf dir index)
    (hfree : ∀ other ∈ files, ¬ HasName other dir) :
    (candidates dir).findSome? (find? (files.map namesOf)) = some index ↔
      IsFirstBare files dir index ∨ ((∀ other ∈ files, bareName other ≠ dir) ∧
        IsLastNamed files (dir ++ "/index".toList) index) := by
  rw [candidates, List.findSome?_cons]
  cases hdir : find? (files.map namesOf) dir with
  | some first =>
      have hbare : IsFirstBare files dir first := by
        rcases find?_eq_some_iff.mp hdir with hnamed | ⟨-, hbare⟩
        · obtain ⟨hhas, front, back, rfl, -⟩ := hnamed
          exact absurd hhas (hfree first (List.mem_append_right _ List.mem_cons_self))
        · exact hbare
      constructor
      · rintro ⟨⟩
        exact .inl hbare
      · rintro (hfirst | ⟨hnone, -⟩)
        · rw [← hdir, find?_eq_some_iff.mpr (.inr ⟨hfree, hfirst⟩)]
        · exact absurd hbare.1 (hnone first hbare.mem)
  | none =>
      have hnone := (find?_eq_none_iff.mp hdir).2
      obtain ⟨last, hlast, hfind⟩ := exists_isLastNamed hindex hof.hasName
      rw [List.findSome?_cons, hfind]
      constructor
      · rintro ⟨⟩
        exact .inr ⟨hnone, hlast⟩
      · rintro (hfirst | ⟨-, hnamed⟩)
        · exact absurd hfirst.1 (hnone index hindex)
        · exact congrArg some (hlast.eq hnamed)

/-- An import that denotes a directory counts on the edge to its index exactly if the index is the
last file with this name, with the extension or without, and no file has the path of the directory
as its bare name, or the index is the first one that does. A path with a slash is never a bare
name. -/
theorem directory_import_counts_iff (hnodup : (files.map (·.path)).Nodup) (hsource : source ∈ files)
    (hindex : index ∈ files) (hof : IsIndexOf dir index) (hother : index.path ≠ source.path)
    (hname : name ∈ source.imports) (hdot : name.toList.head? = some '.')
    (hdir : relativePath source name = dir) (hfree : ∀ other ∈ files, ¬ HasName other dir) :
    CountsOn internalStarts files source.path name (some (source.path, index.path)) ↔
      IsFirstBare files dir index ∨ ((∀ other ∈ files, bareName other ≠ dir) ∧
        IsLastNamed files (dir ++ "/index".toList) index) := by
  have hedge : CountsOn internalStarts files source.path name _ :=
    countsOn_edge? hnodup hsource hname
  rw [edge?_of_dot hdot, hdir] at hedge
  rw [← findSome?_directory_iff hindex hof hfree]
  constructor
  · intro hcounts
    obtain ⟨found, hfound, hto⟩ := Option.bind_eq_some_iff.mp (hedge.unique hcounts)
    rw [hfound, eq_of_path_eq hnodup (mem_of_findSome? hfound) hindex (path_of_edgeTo hto)]
  · intro hfound
    rwa [hfound, Option.bind_some, edgeTo, if_neg hother] at hedge

/-- A module that imports the directory above its own, each with an index. -/
def nestedFiles : List SourceFile :=
  [fileAt "src/app/index.ts" [], fileAt "src/app/view/index.tsx" [],
    fileAt "src/app/view/list.ts" [".."]]

/-- The import gets to the index of the directory above. -/
theorem directory_import_counts_iff_nested :
    CountsOn internalStarts nestedFiles "src/app/view/list.ts" ".."
      (some ("src/app/view/list.ts", "src/app/index.ts")) := by
  have hsource : fileAt "src/app/view/list.ts" [".."] ∈ nestedFiles := by decide
  have hindex : fileAt "src/app/index.ts" [] ∈ nestedFiles := List.mem_cons_self
  have hof : IsIndexOf "src/app".toList (fileAt "src/app/index.ts" []) :=
    ⟨"ts".toList, by decide, by decide, by decide, by decide +kernel⟩
  have hother : (fileAt "src/app/index.ts" []).path ≠ (fileAt "src/app/view/list.ts" [".."]).path := by
    decide
  have hname : ".." ∈ (fileAt "src/app/view/list.ts" [".."]).imports := List.mem_cons_self
  have hdir : relativePath (fileAt "src/app/view/list.ts" [".."]) ".." = "src/app".toList := by
    decide +kernel
  have hfree : ∀ other ∈ nestedFiles, ¬ HasName other "src/app".toList := by decide +kernel
  have hbare : ∀ other ∈ nestedFiles, bareName other ≠ "src/app".toList := by decide +kernel
  have hlast : IsLastNamed nestedFiles ("src/app".toList ++ "/index".toList)
      (fileAt "src/app/index.ts" []) := ⟨hof.hasName, [], _, rfl, by decide +kernel⟩
  exact (directory_import_counts_iff (by decide) hsource hindex hof hother hname (by decide) hdir
    hfree).mpr (.inr ⟨hbare, hlast⟩)

/-- A module with the bare name of a directory, and a file in the root that imports the directory. -/
def besideFiles : List SourceFile :=
  [fileAt "lib/utils.ts" [], fileAt "main.ts" ["./utils"], fileAt "utils/index.ts" []]

/-- An index in the root, and a file in a directory that imports the root. -/
def rootedFiles : List SourceFile := [fileAt "index.ts" [], fileAt "src/app.ts" [".."]]

/-- The module takes the import of the directory with its bare name, and an import of the root gets to
no index. -/
theorem not_countsOn_index :
    (relativePath (fileAt "main.ts" ["./utils"]) "./utils" = "utils".toList ∧
      IsIndexOf "utils".toList (fileAt "utils/index.ts" []) ∧
      (∀ file ∈ besideFiles, ¬ HasName file "utils".toList) ∧
      ¬ CountsOn internalStarts besideFiles "main.ts" "./utils"
        (some ("main.ts", "utils/index.ts"))) ∧
    (relativePath (fileAt "src/app.ts" [".."]) ".." = ".".toList ∧
      (∀ file ∈ rootedFiles, ¬ HasName file ".".toList) ∧
      ¬ CountsOn internalStarts rootedFiles "src/app.ts" ".." (some ("src/app.ts", "index.ts"))) := by
  have hbeside : fileAt "main.ts" ["./utils"] ∈ besideFiles := by decide
  have hutils : CountsOn internalStarts _ _ "./utils" _ :=
    countsOn_edge? (by decide) hbeside List.mem_cons_self
  have hmodule : edge? internalStarts (besideFiles.map namesOf)
      (fileAt "main.ts" ["./utils"]).path "./utils" = some ("main.ts", "lib/utils.ts") := by
    decide +kernel
  have hrooted : fileAt "src/app.ts" [".."] ∈ rootedFiles := by decide
  have hroot : CountsOn internalStarts _ _ ".." _ :=
    countsOn_edge? (by decide) hrooted List.mem_cons_self
  have hnowhere : edge? internalStarts (rootedFiles.map namesOf)
      (fileAt "src/app.ts" [".."]).path ".." = none := by decide +kernel
  rw [hmodule] at hutils
  rw [hnowhere] at hroot
  refine ⟨⟨by decide +kernel, ⟨"ts".toList, by decide, by decide, by decide, by decide +kernel⟩,
    by decide +kernel, fun hindex => ?_⟩, by decide +kernel, by decide +kernel, fun hindex => ?_⟩
  · exact absurd (hutils.unique hindex) (by decide)
  · cases hroot.unique hindex

end SourceAtlas.Dependency
