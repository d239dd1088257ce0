import SourceAtlas.Proofs.Disk.Directories
import SourceAtlas.Proofs.Tree.Plain

/-!
# Writing in a plain project

In a plain project nothing is in the place of a temporary file and no link leads astray. A write
either puts the whole file and changes nothing else, or it changes nothing; which one it is depends
on the lengths of names and paths, and on whether a directory is in the way.
-/

namespace SourceAtlas

namespace Tree

/-- The location of the temporary file of a route is not too long. -/
def takesTemporary (route : Route) : Bool :=
  match (Location.ofRoute route).appending? Disk.temporaryEnding with
  | none => false
  | some temporary =>
      !temporary.hasNul && decide (byteLength temporary.text < maxPathBytes) &&
        decide (byteLength temporary.name ≤ maxNameBytes)

theorem takesTemporary_iff {front : Route} {name : String} :
    takesTemporary (front ++ [name]) = true ↔
      (Location.ofRoute (front ++ [name ++ Disk.temporaryEnding])).IsUsable ∧
        byteLength (name ++ Disk.temporaryEnding) ≤ maxNameBytes := by
  have happend : (Location.ofRoute (front ++ [name])).appending? Disk.temporaryEnding =
      some (Location.ofRoute (front ++ [name ++ Disk.temporaryEnding])) := by
    simp [Location.appending?, Location.ofRoute]
  have hname : (Location.ofRoute (front ++ [name ++ Disk.temporaryEnding])).name =
      name ++ Disk.temporaryEnding := by
    simp [Location.name, Location.ofRoute]
  unfold takesTemporary
  simp [happend, hname, Location.IsUsable]

variable {tree : Tree} {shell : Shell} {root front : Route} {name : String}

/-- The place of a temporary file in a plain project. -/
theorem IsPlain.filePlace?_temporary (h : tree.IsPlain root) (shell : Shell)
    (hparent : tree.find? (root ++ front) = some .directory) (name : String) (follow : Bool) :
    tree.filePlace? shell follow
        (.ofRoute (root ++ (front ++ [name ++ Disk.temporaryEnding]))) =
      if takesTemporary (root ++ (front ++ [name])) = true then
        some (root ++ (front ++ [name ++ Disk.temporaryEnding]))
      else none := by
  have hnone := h.find?_temporary front name
  simp only [← List.append_assoc] at hnone ⊢
  unfold filePlace?
  by_cases husable :
      (Location.ofRoute (root ++ front ++ [name ++ Disk.temporaryEnding])).IsUsable
  · have hleads := (h.sound.isReal hparent).leads shell husable (root_ofRoute_ne _) rfl
    by_cases hshort : byteLength (name ++ Disk.temporaryEnding) ≤ maxNameBytes
    · have hplain : IsPlainName (name ++ Disk.temporaryEnding) :=
        ⟨temporary_ne (by decide), temporary_ne (by decide), hshort⟩
      rw [if_pos (takesTemporary_iff.mpr ⟨husable, hshort⟩), hleads.locate, walk_single_of_not_link hplain, hnone]
      · rfl
      · intro target hlink
        rw [hnone] at hlink
        cases hlink
    · rw [if_neg fun htakes => hshort (takesTemporary_iff.mp htakes).2, hleads.locate,
        walk_long _ _ _ _ (temporary_ne (by decide)) (temporary_ne (by decide))
          (Nat.not_le.mp hshort)]
      rfl
  · obtain ⟨failure, -, hlocate⟩ := locate_of_not_usable shell husable
    rw [if_neg fun htakes => husable (takesTemporary_iff.mp htakes).1, hlocate]

/-- The place of a file in a plain project, if there is one for its temporary file. -/
theorem IsPlain.filePlace?_keep (h : tree.IsPlain root) (shell : Shell)
    (hparent : tree.find? (root ++ front) = some .directory) (hname : IsPlainName name)
    (htakes : takesTemporary (root ++ (front ++ [name])) = true) :
    tree.filePlace? shell false (.ofRoute (root ++ (front ++ [name]))) =
      if tree.find? (root ++ (front ++ [name])) = some .directory then none
      else some (root ++ (front ++ [name])) := by
  simp only [← List.append_assoc] at htakes ⊢
  obtain ⟨husable, -⟩ := takesTemporary_iff.mp htakes
  have happend : (Location.ofRoute (root ++ front ++ [name])).appending? Disk.temporaryEnding =
      some (Location.ofRoute (root ++ front ++ [name ++ Disk.temporaryEnding])) := by
    simp [Location.appending?, Location.ofRoute]
  have hleads := (h.sound.isReal hparent).leads shell
    (Location.IsUsable.of_appending? happend husable) (root_ofRoute_ne _) rfl
  exact hleads.filePlace?_keep hname

/-- A temporary file that is put and removed leaves no trace where there was nothing. -/
theorem isSame_put_remove {route : Route} (hne : route ≠ []) (hnone : tree.find? route = none)
    (entry : Entry) : tree.IsSame (tree.applyAll [.put route entry, .remove route]) := by
  intro place
  simp only [applyAll_cons, applyAll_nil]
  rw [find?_remove _ hne, find?_put _ hne]
  split
  · next hplace => rw [hplace, hnone]
  · rfl

/-- A temporary file that is moved into place leaves its entry there and nothing else. -/
theorem isWith_put_move {route goal : Route} (hne : route ≠ []) (hgoal : goal ≠ [])
    (hnone : tree.find? route = none) (entry other : Entry) :
    tree.IsWith goal entry
      (tree.applyAll [.put route other, .remove route, .put goal entry]) := by
  intro place
  simp only [applyAll_cons, applyAll_nil]
  rw [find?_put _ hgoal, find?_remove _ hne, find?_put _ hne]
  split
  · rfl
  · split
    · next hplace => rw [hplace, hnone]
    · rfl

end Tree

namespace Disk

variable {shell : Shell} {root front : Route} {name : String} {text : Text.Draft}
  {bytes : List UInt8} {volume : Volume}

section Via

variable {tree : Tree} {result : Except DiskFailure Unit} {edits : List Edit}

/-- A write without room for the temporary file changes nothing. -/
theorem Via.isSame_of_no_place {temporary target : Location}
    (hvia : Via tree shell temporary target text result edits)
    (hplace : ∀ follow, tree.filePlace? shell follow temporary = none) :
    (∃ failure, result = .error failure) ∧ tree.IsSame (tree.applyAll edits) := by
  cases hvia with
  | unreached hkeep hfollow => exact ⟨⟨_, rfl⟩, fun _ => rfl⟩
  | blocked hkeep hfollow => rw [hplace] at hkeep; cases hkeep
  | dropped hkeep hfollow hcause => rw [hplace] at hkeep; cases hkeep
  | moved hkeep hfollow hwritten hkept hparents hdiffer hentry =>
      rw [hplace] at hkeep
      cases hkeep

/-- A write through a temporary file where there is nothing puts the whole file, unless a directory is
in its place. -/
theorem Via.isWith_or_isSame {temporary target : Location} {route goal : Route}
    (hvia : Via tree shell temporary target text result edits) (hencode : text.encode = .ok bytes)
    (hplace : ∀ follow, tree.filePlace? shell follow temporary = some route)
    (hne : route ≠ []) (hnone : tree.find? route = none) (hgoals : goal ≠ [])
    (hgoal : tree.filePlace? shell false target =
      if tree.find? goal = some .directory then none else some goal) :
    if tree.find? goal ≠ some .directory then
      result = .ok () ∧ tree.IsWith goal (.file bytes .recently) (tree.applyAll edits)
    else
      (∃ failure, result = .error failure) ∧ tree.IsSame (tree.applyAll edits) := by
  cases hvia with
  | unreached hkeep hfollow => rw [hplace] at hfollow; cases hfollow
  | blocked hkeep hfollow => rw [hplace] at hfollow; cases hfollow
  | dropped hkeep hfollow hcause =>
      rw [hplace] at hkeep hfollow
      cases hkeep
      cases hfollow
      rcases hcause with ⟨-, hblocked⟩ | ⟨⟨cause, hwrong⟩, -⟩
      · have hdirectory : tree.find? goal = some .directory := by
          rw [hgoal] at hblocked
          split at hblocked
          · assumption
          · cases hblocked
        rw [if_neg (not_not_intro hdirectory)]
        exact ⟨⟨_, rfl⟩, Tree.isSame_put_remove hne hnone _⟩
      · rw [hencode] at hwrong
        cases hwrong
  | moved hkeep hfollow hwritten hkept hparents hdiffer hentry =>
      rw [hplace] at hkeep hfollow
      cases hkeep
      cases hfollow
      rw [hgoal] at hkept
      split at hkept
      · cases hkept
      · next hfree =>
          cases hkept
          rw [hencode] at hwritten
          cases hwritten
          rw [Tree.find?_put _ hne, if_pos rfl] at hentry
          cases hentry
          rw [if_pos hfree]
          exact ⟨rfl, Tree.isWith_put_move hne hgoals hnone _ _⟩

end Via

/-- The file at a route is written or the volume stays as it is. -/
theorem runOn_writeVia_plain (hplain : volume.tree.IsPlain root) (shell : Shell)
    (hparent : volume.tree.find? (root ++ front) = some .directory)
    (hname : Tree.IsPlainName name) (hencode : text.encode = .ok bytes) :
    ∃ result edits,
      runOn (writeVia shell (.ofRoute (root ++ (front ++ [name ++ temporaryEnding])))
          (.ofRoute (root ++ (front ++ [name]))) text) volume = (result, volume.edit edits) ∧
      if Tree.takesTemporary (root ++ (front ++ [name])) = true ∧
          volume.tree.find? (root ++ (front ++ [name])) ≠ some .directory then
        result = .ok () ∧ volume.tree.IsWith (root ++ (front ++ [name])) (.file bytes .recently)
          (volume.tree.applyAll edits)
      else
        (∃ failure, result = .error failure) ∧
          volume.tree.IsSame (volume.tree.applyAll edits) := by
  have happend : (Location.ofRoute (root ++ (front ++ [name]))).appending? temporaryEnding =
      some (.ofRoute (root ++ (front ++ [name ++ temporaryEnding]))) := by
    simp only [← List.append_assoc]
    simp [Location.appending?, Location.ofRoute]
  have hplace := hplain.filePlace?_temporary shell hparent name
  obtain ⟨result, edits, hrun, hvia⟩ := runOn_writeVia shell happend text volume
  refine ⟨result, edits, hrun, ?_⟩
  by_cases htakes : Tree.takesTemporary (root ++ (front ++ [name])) = true
  · simp only [htakes, if_true, true_and] at hplace ⊢
    exact hvia.isWith_or_isSame hencode hplace (by simp) (hplain.find?_temporary front name)
      (by simp) (hplain.filePlace?_keep shell hparent hname htakes)
  · rw [if_neg fun hboth => htakes hboth.1]
    simp only [htakes] at hplace
    exact hvia.isSame_of_no_place hplace

end Disk

end SourceAtlas
