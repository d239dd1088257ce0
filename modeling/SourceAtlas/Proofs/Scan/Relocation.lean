import SourceAtlas.Proofs.Document.Lengths
import SourceAtlas.Proofs.Listing.Git
import SourceAtlas.Proofs.Scan.Files
import SourceAtlas.Proofs.Scan.Shape

/-!
# Files under another root

Where a project lies shows in the absolute paths of its files and of its proposed tags. Everything
else that a scan derives from the files is the same under every root.
-/

namespace SourceAtlas

variable {root : Location} {files : List SourceFile} {file : SourceFile}

/-- The file as a scan of another root knows it. -/
def SourceFile.under (root : Location) (file : SourceFile) : SourceFile :=
  { file with location := (root.child file.path).text }

/-- The tag as a scan of another root proposes it. -/
def InlineTag.under (root : Location) (tag : InlineTag) : InlineTag :=
  { tag with location := (root.child tag.path).text }

theorem keepsShape_under (root : Location) : KeepsShape (SourceFile.under root) :=
  ⟨fun _ => rfl, fun _ => rfl, fun _ => rfl, fun _ => rfl, fun _ => rfl⟩

theorem lineCount_under (root : Location) (file : SourceFile) :
    (file.under root).lineCount = file.lineCount := rfl

/-- Ascending files are known by their members. -/
theorem Ascends.eq_of_mem_iff {first second : List SourceFile} (hfirst : Ascends first)
    (hsecond : Ascends second) (h : ∀ file, file ∈ first ↔ file ∈ second) : first = second := by
  have hne : ∀ {files : List SourceFile}, Ascends files → files.Nodup :=
    fun hascends => .of_map _ hascends.nodup
  have hperm : first.Perm second :=
    (List.perm_ext_iff_of_nodup (hne hfirst) (hne hsecond)).mpr h
  exact hperm.eq_of_pairwise (fun a b _ _ hab hba => absurd hba (lt_asymm hab)) hfirst hsecond

/-- The tags proposed for files under another root are the same, under this root. -/
theorem InlineTag.proposals_under (domains : List Domain) (limit : Int)
    {current other : SourceFile → Option String}
    (hcurrent : ∀ file ∈ files, other (file.under root) = current file) :
    proposals other [] (domains.map (Domain.mapFiles (.under root))) limit
        (files.map (.under root)) =
      (proposals current [] domains limit files).map (.under root) := by
  rw [proposals_map (keepsShape_under root) (lineCount_under root) domains limit current hcurrent,
    proposals, List.map_map]
  rfl

end SourceAtlas
