import SourceAtlas.Proofs.Listing.Walk
import SourceAtlas.Scan.Scan

/-!
# The files of a scan

A scan of a project of files and directories knows every listed file whose path is not too long,
each one once and in the order of paths, and what it knows about a file follows from the bytes of
the file.
-/

namespace SourceAtlas

variable {tree : Tree} {shell : Shell} {root names : Route} {file : SourceFile}

namespace Scan

/-- What a scan knows about the file of a path, if it can be read. -/
def fileAt? (tree : Tree) (shell : Shell) (root : Location) (path : String) : Option SourceFile :=
  (Reading.ofPath tree shell root path).file?

theorem files_ofTree (tree : Tree) (shell : Shell) (reply : Git.Reply) (settings : Settings)
    (root : Location) :
    (ofTree tree shell reply settings root).files =
      (Listing.ofTree tree shell reply settings.excludes root).paths.filterMap
        (fileAt? tree shell root) := by
  change filesOf (List.map _ _) = _
  rw [filesOf, List.filterMap_map]
  rfl

theorem path_of_fileAt? {root : Location} {path : String}
    (h : fileAt? tree shell root path = some file) : file.path = path := by
  unfold fileAt? Reading.file? Reading.ofPath at h
  dsimp only at h
  cases hread : tree.readBytes shell (root.child path) with
  | error failure => rw [hread] at h; cases h
  | ok bytes =>
      rw [hread] at h
      cases h
      rfl

theorem fileAt?_slashed (hsound : tree.IsSound) (shell : Shell) {bytes : List UInt8}
    {modified : Modified} (hfind : tree.find? (root ++ names) = some (.file bytes modified)) :
    fileAt? tree shell root (slashed names) =
      if (Location.ofRoute (root ++ names)).IsUsable then
        some (.ofBytes (slashed names) (Location.ofRoute (root ++ names)).text bytes)
      else none := by
  have hnames : ∀ name ∈ names, IsName name := fun name hmem =>
    hsound.names _ _ hfind name (List.mem_append_right _ hmem)
  unfold fileAt? Reading.file? Reading.ofPath
  dsimp only
  rw [Location.child_slashed hnames]
  rcases hsound.readBytes_file hfind shell with ⟨husable, hread⟩ | ⟨hlong, failure, hread⟩
  · rw [if_pos husable, hread]
    rfl
  · rw [if_neg hlong, hread]
    rfl

/-- The scan knows a file at a route from its bytes. -/
def Knows (tree : Tree) (root names : Route) (file : SourceFile) : Prop :=
  ∃ bytes modified, tree.find? (root ++ names) = some (.file bytes modified) ∧
    (Location.ofRoute (root ++ names)).IsUsable ∧
    file = .ofBytes (slashed names) (Location.ofRoute (root ++ names)).text bytes

theorem Knows.usable (h : Knows tree root names file) :
    (Location.ofRoute (root ++ names)).IsUsable := by
  obtain ⟨bytes, modified, -, husable, -⟩ := h
  exact husable

theorem Knows.path (h : Knows tree root names file) : file.path = slashed names := by
  obtain ⟨bytes, modified, -, -, hfile⟩ := h
  rw [hfile, SourceFile.ofBytes]

theorem Knows.location (h : Knows tree root names file) :
    file.location = (Location.ofRoute (root ++ names)).text := by
  obtain ⟨bytes, modified, -, -, hfile⟩ := h
  rw [hfile, SourceFile.ofBytes]

theorem Knows.language (h : Knows tree root names file) :
    file.language = (Language.ofPath? (slashed names)).getD .unknown := by
  obtain ⟨bytes, modified, -, -, hfile⟩ := h
  rw [hfile, SourceFile.ofBytes]

theorem Knows.isName (hsound : tree.IsSound) (h : Knows tree root names file) :
    ∀ name ∈ names, IsName name := by
  obtain ⟨bytes, modified, hfind, -, -⟩ := h
  exact fun name hmem => hsound.names _ _ hfind name (List.mem_append_right _ hmem)

theorem Knows.isName_route (hsound : tree.IsSound) (h : Knows tree root names file) :
    ∀ name ∈ root ++ names, IsName name := by
  obtain ⟨bytes, modified, hfind, -, -⟩ := h
  exact hsound.names _ _ hfind

section Ordinary

variable (hordinary : tree.IsOrdinary root) (shell : Shell) (cause : Git.Failure) (settings : Settings)

include hordinary

/-- The files of a scan are the listed ones that can be read. -/
theorem mem_files (file : SourceFile) :
    file ∈ (ofTree tree shell (.error cause) settings root).files ↔
      ∃ names, Listing.accepts settings.excludes (slashed names) = true ∧
        tree.IsWalked root names ∧ Knows tree root names file := by
  rw [files_ofTree, List.mem_filterMap]
  simp only [Listing.mem_paths hordinary]
  constructor
  · rintro ⟨-, ⟨haccepts, names, hwalked, rfl⟩, hfile⟩
    obtain ⟨bytes, modified, hfind⟩ := hwalked.file
    rw [fileAt?_slashed hordinary.sound shell hfind] at hfile
    split at hfile
    · next husable =>
        cases hfile
        exact ⟨names, haccepts, hwalked, bytes, modified, hfind, husable, rfl⟩
    · cases hfile
  · rintro ⟨names, haccepts, hwalked, bytes, modified, hfind, husable, rfl⟩
    refine ⟨slashed names, ⟨haccepts, names, hwalked, rfl⟩, ?_⟩
    rw [fileAt?_slashed hordinary.sound shell hfind, if_pos husable]

end Ordinary

/-- The files of a scan ascend by path. -/
theorem pairwise_files (tree : Tree) (shell : Shell) (reply : Git.Reply) (settings : Settings)
    (root : Location) :
    (ofTree tree shell reply settings root).files.Pairwise
      fun first second => first.path < second.path := by
  rw [files_ofTree]
  refine List.Pairwise.filterMap _ ?_ (Listing.pairwise_paths ..)
  intro first second hlt file hfile other hother
  rwa [path_of_fileAt? hfile, path_of_fileAt? hother]

end Scan

end SourceAtlas
