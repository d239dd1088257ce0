import Mathlib.Data.List.Nodup
import SourceAtlas.Proofs.Dependency.Counting

/-!
# Relative imports

An import that starts with a dot is read from the directory of its file. It counts on the edge to a
listed file with the path that it denotes, unless a later file has this path as its own without the
extension. In a path without slashes it may also be taken for a bare name.
-/

namespace SourceAtlas.Dependency

open SourceAtlas.Path

variable {files : List SourceFile} {source target : SourceFile} {name : String}

/-- The project path of an import that is read from the directory of its file. -/
def relativePath (source : SourceFile) (name : String) : List Char :=
  normalize (joinText (dirName source.path.toList) name.toList)

/-- The edge between two files, if they are different ones. -/
def edgeTo (source target : SourceFile) : Option (String × String) :=
  if target.path = source.path then none else some (source.path, target.path)

theorem path_of_edgeTo {found : SourceFile}
    (h : edgeTo source found = some (source.path, target.path)) : found.path = target.path := by
  unfold edgeTo at h
  split at h
  · cases h
  · exact (Prod.mk.inj (Option.some.inj h)).2

theorem isInternal_of_dot (hdot : name.toList.head? = some '.') :
    isInternal internalStarts name = true := by
  obtain ⟨rest, hrest⟩ := List.head?_eq_some_iff.mp hdot
  unfold isInternal internalStarts
  rw [List.any_cons, hrest]
  rfl

theorem edge?_of_dot (hdot : name.toList.head? = some '.') (table : List Names) :
    edge? internalStarts table source.path name =
      ((candidates (relativePath source name)).findSome? (find? table)).bind (edgeTo source) := by
  unfold edge? resolve? resolvedPath
  rw [if_pos (isInternal_of_dot hdot), if_pos hdot]
  rfl

/-- A listed file is known by its path. -/
theorem eq_of_path_eq (hnodup : (files.map (·.path)).Nodup) {first second : SourceFile}
    (hfirst : first ∈ files) (hsecond : second ∈ files) (h : first.path = second.path) :
    first = second := List.inj_on_of_nodup_map hnodup hfirst hsecond h

/-- An import that names a listed file counts on the edge to the last file that has this name, with
the extension or without. That is the named file itself exactly if behind it no path without its
extension is the path of the file. -/
theorem exact_import_counts_iff (hnodup : (files.map (·.path)).Nodup) (hsource : source ∈ files)
    (htarget : target ∈ files) (hother : target.path ≠ source.path)
    (hname : name ∈ source.imports) (hdot : name.toList.head? = some '.')
    (hpath : relativePath source name = target.path.toList) :
    (CountsOn internalStarts files source.path name (some (source.path, target.path)) ↔
      ∃ front back, files = front ++ target :: back ∧
        ∀ other ∈ back, withoutExtension other.path.toList ≠ target.path.toList) ∧
    ∃ last, IsLastNamed files target.path.toList last ∧
      CountsOn internalStarts files source.path name (edgeTo source last) := by
  have hhas : HasName target target.path.toList := .inl rfl
  obtain ⟨last, hlast, hfind⟩ := exists_isLastNamed htarget hhas
  have hcounts : CountsOn internalStarts files source.path name (edgeTo source last) := by
    have hedge : CountsOn internalStarts files source.path name _ :=
      countsOn_edge? hnodup hsource hname
    rwa [edge?_of_dot hdot, hpath, candidates, List.findSome?_cons, hfind] at hedge
  refine ⟨?_, last, hlast, hcounts⟩
  constructor
  · intro htaken
    have hsame : last.path = target.path := path_of_edgeTo (hcounts.unique htaken)
    obtain ⟨-, front, back, hfiles, hback⟩ := hlast
    have hmem : last ∈ files := hfiles ▸ List.mem_append_right _ List.mem_cons_self
    obtain rfl := eq_of_path_eq hnodup hmem htarget hsame
    exact ⟨front, back, hfiles, fun other hbehind htrimmed => hback other hbehind (.inr htrimmed)⟩
  · rintro ⟨front, back, rfl, hback⟩
    have hlastNamed : IsLastNamed (front ++ target :: back) target.path.toList target := by
      refine ⟨hhas, front, back, rfl, fun other hbehind => ?_⟩
      rintro (hpaths | htrimmed)
      · have hcons := (List.nodup_append.mp (List.map_append ▸ hnodup)).2.1
        have hout := (List.nodup_cons.mp hcons).1
        exact hout (List.mem_map.mpr ⟨other, hbehind, String.toList_inj.mp hpaths⟩)
      · exact hback other hbehind htrimmed
    obtain rfl := hlast.eq hlastNamed
    rwa [edgeTo, if_neg hother] at hcounts

/-- A style sheet, a module named after it, and an import of the style sheet. -/
def styledFiles : List SourceFile :=
  [fileAt "src/app.ts" ["./theme.css"], fileAt "src/theme.css" [], fileAt "src/theme.css.ts" []]

/-- The module takes the import of the style sheet that it is named after. -/
theorem exact_import_counts_iff_styled :
    relativePath (fileAt "src/app.ts" ["./theme.css"]) "./theme.css" = "src/theme.css".toList ∧
      CountsOn internalStarts styledFiles "src/app.ts" "./theme.css"
        (some ("src/app.ts", "src/theme.css.ts")) ∧
      ¬ CountsOn internalStarts styledFiles "src/app.ts" "./theme.css"
        (some ("src/app.ts", "src/theme.css")) := by
  have hsource : fileAt "src/app.ts" ["./theme.css"] ∈ styledFiles := List.mem_cons_self
  have htarget : fileAt "src/theme.css" [] ∈ styledFiles :=
    List.mem_cons_of_mem _ List.mem_cons_self
  have hother : (fileAt "src/theme.css" []).path ≠ (fileAt "src/app.ts" ["./theme.css"]).path := by
    decide
  have hname : "./theme.css" ∈ (fileAt "src/app.ts" ["./theme.css"]).imports := List.mem_cons_self
  have hpath : relativePath (fileAt "src/app.ts" ["./theme.css"]) "./theme.css" =
      (fileAt "src/theme.css" []).path.toList := by decide +kernel
  obtain ⟨-, last, hlast, hcounts⟩ :=
    exact_import_counts_iff (by decide) hsource htarget hother hname (by decide) hpath
  have hmodule : IsLastNamed styledFiles (fileAt "src/theme.css" []).path.toList
      (fileAt "src/theme.css.ts" []) := by
    refine ⟨by decide +kernel, [fileAt "src/app.ts" ["./theme.css"], fileAt "src/theme.css" []], [],
      rfl, nofun⟩
  obtain rfl := hlast.eq hmodule
  exact ⟨hpath, hcounts, fun hsheet => absurd (hcounts.unique hsheet) (by decide)⟩

/-- An import that counts on an edge reaches the file there, and an import that reaches no file counts
nowhere. So a relative import reaches a file under another path only if it denotes a path without
slashes that no file has, and then by the bare name of the file. -/
theorem relative_import_reaches (hnodup : (files.map (·.path)).Nodup) (hsource : source ∈ files)
    (hname : name ∈ source.imports) (hdot : name.toList.head? = some '.') :
    (∀ target ∈ files,
      CountsOn internalStarts files source.path name (some (source.path, target.path)) →
        Reaches files (relativePath source name) target) ∧
    ((∀ target ∈ files, ¬ Reaches files (relativePath source name) target) →
      CountsOn internalStarts files source.path name none) := by
  have hedge : CountsOn internalStarts files source.path name _ :=
    countsOn_edge? hnodup hsource hname
  rw [edge?_of_dot hdot] at hedge
  cases hfound : (candidates (relativePath source name)).findSome?
      (find? (files.map namesOf)) with
  | none =>
      rw [hfound] at hedge
      refine ⟨fun target _ hcounts => ?_, fun _ => hedge⟩
      cases hedge.unique hcounts
  | some found =>
      rw [hfound, Option.bind_some] at hedge
      have hreaches := reaches_of_findSome? hfound
      have hmem : found ∈ files := mem_of_findSome? hfound
      refine ⟨fun target htarget hcounts => ?_, fun hnone => absurd hreaches (hnone found hmem)⟩
      have hsame : found.path = target.path := path_of_edgeTo (hedge.unique hcounts)
      exact eq_of_path_eq hnodup hmem htarget hsame ▸ hreaches

/-- A module in a directory of its own, and a file at a path that imports its bare name. -/
def deepFiles (importer : String) : List SourceFile :=
  [fileAt "lib/deep/utils.ts" [], fileAt importer ["./utils"]]

/-- An import from a directory does not get to the module. -/
theorem relative_import_reaches_beside :
    CountsOn internalStarts (deepFiles "src/main.ts") "src/main.ts" "./utils" none := by
  have hsource : fileAt "src/main.ts" ["./utils"] ∈ deepFiles "src/main.ts" :=
    List.mem_cons_of_mem _ List.mem_cons_self
  have hname : "./utils" ∈ (fileAt "src/main.ts" ["./utils"]).imports := List.mem_cons_self
  refine (relative_import_reaches (by decide) hsource hname (by decide)).2 fun target htarget => ?_
  rintro (hnamed | ⟨hslash, -⟩)
  · revert target
    decide +kernel
  · exact hslash (by decide +kernel)

/-- From the root, the same import gets there by the bare name, though no path that is tried for it
is that of the module, with the extension or without. -/
theorem relative_import_counts_bare :
    CountsOn internalStarts (deepFiles "main.ts") "main.ts" "./utils"
        (some ("main.ts", "lib/deep/utils.ts")) ∧
      ∀ name ∈ candidates (relativePath (fileAt "main.ts" ["./utils"]) "./utils"),
        ¬ HasName (fileAt "lib/deep/utils.ts" []) name := by
  have hsource : fileAt "main.ts" ["./utils"] ∈ deepFiles "main.ts" :=
    List.mem_cons_of_mem _ List.mem_cons_self
  have hname : "./utils" ∈ (fileAt "main.ts" ["./utils"]).imports := List.mem_cons_self
  have hcounts : CountsOn internalStarts _ _ "./utils" _ :=
    countsOn_edge? (by decide) hsource hname
  have hedge : edge? internalStarts ((deepFiles "main.ts").map namesOf)
      (fileAt "main.ts" ["./utils"]).path "./utils" = some ("main.ts", "lib/deep/utils.ts") := by
    decide +kernel
  rw [hedge] at hcounts
  exact ⟨hcounts, by decide +kernel⟩

end SourceAtlas.Dependency
