import SourceAtlas.Proofs.Disk.Directories
import SourceAtlas.Proofs.Tree.Growth

/-!
# Writes that happen or do not

A write makes the directories in front of the file first. From there on it changes the file and
nothing else, or nothing at all. What it leaves of a failure are the directories, so a target that is
itself one of them has changed although the write failed.
-/

namespace SourceAtlas

namespace Tree

variable {tree : Tree} {shell : Shell} {location : Location}

/-- What is vacant is the next name of the directory that the location leads to. -/
theorem leads_of_vacant {directory : Route} {name : String}
    (h : tree.locate shell false location = .ok (.vacant directory name)) :
    ∃ left, tree.Leads shell location left directory name ∧ IsPlainName name ∧
      tree.find? (directory ++ [name]) = none := by
  have hplace : tree.filePlace? shell false location = some (directory ++ [name]) := by
    unfold filePlace?
    rw [h]
  obtain ⟨left, parent, last, hleads⟩ := leads_of_place hplace
  have hsame := hleads.eq_of_keep hplace
  obtain ⟨rfl, hlast⟩ := List.append_inj' hsame rfl
  obtain rfl : name = last := List.singleton_inj.mp hlast
  exact ⟨left, hleads, holds_of_walk (locate_eq_ok_iff.mp h).2⟩

theorem Leads.reach_parts {left : Nat} {parent : Route} {name : String}
    (h : tree.Leads shell location left parent name) :
    Tree.reach tree maxLinks (startOf shell location) location.parts =
      Tree.reach tree left parent [name] := by
  rw [h.parts, reach_append, h.reach]

theorem isPlaceOf_of_filePlace {before : Tree} {place : Route}
    (hgains : before.GainsDirectories tree)
    (h : tree.filePlace? shell false location = some place) :
    before.IsPlaceOf shell location place := by
  obtain ⟨left, parent, name, hleads⟩ := leads_of_place h
  exact ⟨tree, left, parent, name, hgains, hleads, hleads.isPlainName h, hleads.eq_of_keep h⟩

/-- Where nothing is, a file comes to be whether links are followed or not. -/
theorem filePlace?_of_vacant {place : Route}
    (h : tree.filePlace? shell false location = some place) (hfind : tree.find? place = none) :
    tree.filePlace? shell true location = some place := by
  obtain ⟨left, parent, name, hleads⟩ := leads_of_place h
  have hplain := hleads.isPlainName h
  obtain rfl := hleads.eq_of_keep h
  unfold filePlace?
  rw [hleads.locate, walk_single_of_not_link hplain (by simp [hfind]), hfind]
  rfl

end Tree

namespace Disk

variable {shell : Shell} {location target temporary : Location} {volume : Volume}
  {text : Text.Draft}

/-! ## Making directories -/

/-- What comes of making a directory and its parents. -/
structure Makes (shell : Shell) (location : Location) (before after : Tree)
    (result : Except DiskFailure Unit) : Prop where
  gains : before.GainsDirectories after
  /-- What is new is on the way. -/
  onWay : ∀ route, after.find? route ≠ before.find? route → ∃ front name left parent,
    front ++ [name] <+: location.parts ∧
      Tree.reach after Tree.maxLinks (Tree.startOf shell location) front = .ok (left, parent) ∧
      Tree.IsPlainName name ∧ route = parent ++ [name]
  reached : result = .ok () → ∃ found,
    Tree.reach after Tree.maxLinks (Tree.startOf shell location) location.parts = .ok found

namespace Makes

variable {before middle after : Tree} {result : Except DiskFailure Unit}

theorem failed (tree : Tree) (failure : DiskFailure) :
    Makes shell location tree tree (.error failure) :=
  ⟨.refl tree, fun _ hne => absurd rfl hne, fun h => nomatch h⟩

theorem here {tree : Tree} (h : tree.isDirectory shell location = .ok true) :
    Makes shell location tree tree (.ok ()) := by
  obtain ⟨place, hstat⟩ := Tree.stat_of_isDirectory h
  have hwalk := (Tree.locate_eq_ok_iff.mp (Tree.stat_eq_ok_iff.mp hstat)).2
  obtain ⟨left, hreach⟩ := (Tree.walk_directory_iff _ _ _ _ _).mp hwalk
  exact ⟨.refl tree, fun _ hne => absurd rfl hne, fun _ => ⟨_, hreach⟩⟩

theorem made {tree : Tree} {edits : List Edit}
    (h : tree.makeDirectory shell location = .ok edits) :
    Makes shell location tree (tree.applyAll edits) (.ok ()) := by
  unfold Tree.makeDirectory at h
  obtain ⟨spot, hlocate, hspot⟩ := Outcome.bind_eq_ok_iff.mp h
  cases spot with
  | here route entry => cases hspot
  | vacant directory name =>
      cases hspot
      obtain ⟨left, hleads, hplain, hfind⟩ := Tree.leads_of_vacant hlocate
      have hgains := Tree.GainsDirectories.put_directory hfind
      have hthere : (tree.apply (.put (directory ++ [name]) .directory)).find?
          (directory ++ [name]) = some .directory := by
        rw [Tree.find?_put tree (by simp), if_pos rfl]
      have hafter := hleads.of_keepsPaths hgains.keepsPaths
      have hreach : Tree.reach (tree.apply (.put (directory ++ [name]) .directory)) Tree.maxLinks
          (Tree.startOf shell location) location.parts = .ok (left, directory ++ [name]) := by
        rw [hafter.reach_parts, Tree.reach_plain _ _ _ hplain, hthere, Tree.reach_nil]
      refine ⟨hgains, fun route hne => ?_, fun _ => ⟨_, hreach⟩⟩
      have hroute : route = directory ++ [name] := by
        apply Classical.byContradiction
        intro hother
        apply hne
        rw [Tree.applyAll_cons, Tree.applyAll_nil, Tree.find?_put tree (by simp), if_neg hother]
      exact ⟨location.parts.dropLast, name, left, directory, hafter.parts ▸ List.prefix_refl _,
        hafter.reach, hplain, hroute⟩

/-- The directories in front of one are made first, then the last one. -/
theorem andThen (h : Makes shell location.parent before middle (.ok ()))
    (hnext : Makes shell location middle after result) :
    Makes shell location before after result := by
  refine ⟨h.gains.trans hnext.gains, fun route hne => ?_, hnext.reached⟩
  by_cases hlate : after.find? route = middle.find? route
  · obtain ⟨front, name, left, parent, hfront, hreach, hroute⟩ :=
      h.onWay route fun hsame => hne (hlate.trans hsame)
    exact ⟨front, name, left, parent, hfront.trans (List.dropLast_prefix _),
      Tree.reach_of_keepsPaths hnext.gains.keepsPaths hreach, hroute⟩
  · exact hnext.onWay route hlate

/-- When the directories in front of one cannot be made, nothing more is. -/
theorem ofParent {failure : DiskFailure}
    (h : Makes shell location.parent before after (.error failure)) :
    Makes shell location before after (.error failure) := by
  refine ⟨h.gains, fun route hne => ?_, fun hok => nomatch hok⟩
  obtain ⟨front, name, left, parent, hfront, hreach⟩ := h.onWay route hne
  exact ⟨front, name, left, parent, hfront.trans (List.dropLast_prefix _), hreach⟩

end Makes

/-- A run that makes directories. -/
def MakesOn (shell : Shell) (location : Location) (run : Disk Unit) (volume : Volume) : Prop :=
  ∃ result edits, runOn run volume = (result, volume.edit edits) ∧
    Makes shell location volume.tree (volume.tree.applyAll edits) result

theorem makesOn_throw (failure : DiskFailure) (volume : Volume) :
    MakesOn shell location (throw failure) volume :=
  ⟨.error failure, [], by simp, .failed _ _⟩

theorem makesOn_settle (errno : Errno) (path : String) (goal : Option String) (volume : Volume) :
    MakesOn shell location (do
      if ← view (·.isDirectory shell location) then return ()
      else throw (.refused errno path goal)) volume := by
  cases hinside : volume.tree.isDirectory shell location with
  | error failure => exact ⟨.error failure, [], by simp [runOn_bind, runOn_view, hinside], .failed _ _⟩
  | ok inside =>
      cases inside with
      | true => exact ⟨.ok (), [], by simp [runOn_bind, runOn_view, hinside], .here hinside⟩
      | false =>
          exact ⟨.error (.refused errno path goal), [], by simp [runOn_bind, runOn_view, hinside],
            .failed _ _⟩

theorem makesOn_ensureDirectory (shell : Shell) (location : Location) (volume : Volume) :
    MakesOn shell location (ensureDirectory shell location) volume := by
  unfold MakesOn ensureDirectory
  rw [runOn_tree_bind]
  split
  · next edits hmake => exact ⟨.ok (), edits, rfl, .made hmake⟩
  · exact makesOn_throw _ _
  · exact makesOn_settle _ _ _ _
  · exact makesOn_throw _ _

theorem makesOn_ensureDirectoriesFuel (shell : Shell) (fuel : Nat) (location : Location)
    (volume : Volume) :
    MakesOn shell location (ensureDirectoriesFuel shell fuel location) volume := by
  induction fuel generalizing location volume with
  | zero => exact makesOn_ensureDirectory shell location volume
  | succ fuel ih =>
      unfold MakesOn ensureDirectoriesFuel
      rw [runOn_tree_bind]
      split
      · next edits hmake => exact ⟨.ok (), edits, rfl, .made hmake⟩
      · split
        · exact makesOn_throw _ _
        · obtain ⟨first, edits, hrun, hfirst⟩ := ih location.parent volume
          rw [runOn_bind, hrun]
          cases first with
          | error failure => exact ⟨.error failure, edits, rfl, hfirst.ofParent⟩
          | ok _ =>
              obtain ⟨last, more, hlast, hmakes⟩ :=
                makesOn_ensureDirectory shell location (volume.edit edits)
              refine ⟨last, edits ++ more, by simp [hlast], ?_⟩
              rw [Tree.applyAll_append]
              exact hfirst.andThen hmakes
      · exact makesOn_settle _ _ _ _
      · exact makesOn_throw _ _

theorem makesOn_ensureDirectories (shell : Shell) (location : Location) (volume : Volume) :
    MakesOn shell location (ensureDirectories shell location) volume :=
  makesOn_ensureDirectoriesFuel shell _ location volume

/-! ## All or nothing -/

/-- Once the directories are there, a write leaves all else as it is, or changes the file only. -/
def Settles (shell : Shell) (target : Location) (text : Text.Draft) (made after : Tree)
    (result : Except DiskFailure Unit) : Prop :=
  ((∃ failure, result = .error failure) ∧ ∀ route, after.find? route = made.find? route) ∨
    (result = .ok () ∧ ∃ bytes goal, text.encode = .ok bytes ∧
      made.filePlace? shell false target = some goal ∧
      ∀ route, after.find? route =
        if route = goal then some (.file bytes .recently) else made.find? route)

/-- A write through a temporary file that is not there leaves no trace of it. -/
theorem Via.settles {tree : Tree} {result : Except DiskFailure Unit} {edits : List Edit}
    (hvia : Via tree shell temporary target text result edits)
    (hfree : ∀ route, tree.filePlace? shell false temporary = some route →
      tree.find? route = none) :
    Settles shell target text tree (tree.applyAll edits) result := by
  cases hvia with
  | unreached hkeep hfollow => exact .inl ⟨⟨_, rfl⟩, fun _ => rfl⟩
  | blocked hkeep hfollow =>
      rw [Tree.filePlace?_of_vacant hkeep (hfree _ hkeep)] at hfollow
      cases hfollow
  | @dropped _ route place bytes hkeep hfollow hcause =>
      have hnone := hfree _ hkeep
      rw [Tree.filePlace?_of_vacant hkeep hnone] at hfollow
      cases hfollow
      have hne : route ≠ [] := by
        rintro rfl
        cases hnone
      refine .inl ⟨⟨_, rfl⟩, fun other => ?_⟩
      rw [Tree.applyAll_cons, Tree.applyAll_cons, Tree.applyAll_nil, Tree.find?_remove _ hne,
        Tree.find?_put _ hne]
      by_cases hother : other = route
      · rw [if_pos hother, hother, hnone]
      · rw [if_neg hother, if_neg hother]
  | @moved route place goal bytes entry hkeep hfollow hencode hgoal hparent hne hentry =>
      have hnone := hfree _ hkeep
      rw [Tree.filePlace?_of_vacant hkeep hnone] at hfollow
      cases hfollow
      have hroute : route ≠ [] := by
        rintro rfl
        cases hnone
      have hplace : goal ≠ [] := by
        obtain ⟨left, parent, name, hleads⟩ := Tree.leads_of_place hgoal
        rw [hleads.eq_of_keep hgoal]
        simp
      rw [Tree.find?_put _ hroute, if_pos rfl] at hentry
      cases hentry
      refine .inr ⟨rfl, bytes, goal, hencode, hgoal, fun other => ?_⟩
      simp only [Tree.applyAll_cons, Tree.applyAll_nil, Tree.find?_put _ hplace,
        Tree.find?_remove _ hroute, Tree.find?_put _ hroute]
      by_cases hother : other = route
      · rw [if_pos hother, hother, if_neg hne, if_neg hne, hnone]
      · rw [if_neg hother, if_neg hother]

/-- What comes of a write: how it ends, and the tree afterwards. -/
def wrote (shell : Shell) (target : Location) (text : Text.Draft) (tree : Tree) :
    Except DiskFailure Unit × Tree :=
  ((runOn (writeText shell target text) { tree := tree }).1,
    (runOn (writeText shell target text) { tree := tree }).2.tree)

/-- A write is all or nothing. -/
structure AllOrNothing (shell : Shell) (target : Location) (text : Text.Draft)
    (before after : Tree) (result : Except DiskFailure Unit) : Prop where
  /-- The file has the text, and it is there that the path leads unless a link was replaced. -/
  written : result = .ok () → ∃ bytes place, text.encode = .ok bytes ∧
    before.IsPlaceOf shell target place ∧
    after.find? place = some (.file bytes .recently) ∧
    ((∀ path, before.find? place ≠ some (.link path)) →
      after.stat shell target = .ok (place, .file bytes .recently))
  kept : ∀ failure place, result = .error failure → before.IsPlaceOf shell target place →
    after.find? place = before.find? place
  cleared : ∀ temporary place, target.appending? temporaryEnding = some temporary →
    before.IsPlaceOf shell temporary place → after.find? place = none
  /-- Nothing else changes but that directories are made on the way. -/
  others : ∀ route, ¬ before.IsPlaceOf shell target route →
    after.find? route ≠ before.find? route →
      before.find? route = none ∧ after.find? route = some .directory ∧
        before.IsOnWay shell target route

/-- Nothing is at the place of the temporary file, and neither this place nor that of the file
itself is the place of a missing directory that the path goes through. -/
structure IsClear (tree : Tree) (shell : Shell) (target : Location) : Prop where
  vacant : ∀ temporary place, target.appending? temporaryEnding = some temporary →
    tree.IsPlaceOf shell temporary place → tree.find? place = none
  apart : ∀ location place,
    location = target ∨ target.appending? temporaryEnding = some location →
    tree.IsPlaceOf shell location place → tree.find? place = none →
    ¬ tree.IsOnWay shell target place

/-- A path without steps to the parent comes back to none of the directories that it goes through,
so all that it needs is that nothing is at the place of the temporary file. -/
theorem isClear_of_isSound {tree : Tree} (hsound : tree.IsSound)
    (hdots : ".." ∉ target.parts.dropLast)
    (hvacant : ∀ temporary place, target.appending? temporaryEnding = some temporary →
      tree.IsPlaceOf shell temporary place → tree.find? place = none) :
    IsClear tree shell target := by
  refine ⟨hvacant, fun location place hlocation hplace hnone honWay => ?_⟩
  obtain ⟨later, left, parent, name, hlater, hleads, -, rfl⟩ := hplace
  obtain ⟨other, front, next, rest, directory, hother, ⟨back, hback⟩, hfront, hplain, hroute⟩ :=
    honWay
  obtain ⟨short, htarget⟩ : ∃ short, later.Leads shell target left parent short := by
    rcases hlocation with rfl | happend
    · exact ⟨name, hleads⟩
    · obtain ⟨short, -, htarget⟩ := hleads.of_temporary happend
      exact ⟨short, htarget⟩
  have hreach := htarget.reach
  rw [← hback, List.append_assoc, Tree.reach_append] at hreach
  rw [← hback, List.mem_append, not_or] at hdots
  cases hfound : Tree.reach later Tree.maxLinks (Tree.startOf shell target) front with
  | error errno => rw [hfound] at hreach; cases hreach
  | ok found =>
      rw [hfound, hlater.reach_unique hother hfound hfront, List.singleton_append] at hreach
      dsimp only at hreach
      rw [Tree.reach_plain _ _ _ hplain] at hreach
      rw [hroute] at hnone
      -- What is missing is made, so the path goes on in it.
      cases hlater (directory ++ [next]) with
      | inl hsame => rw [hsame, hnone] at hreach; cases hreach
      | inr hnew =>
          rw [hnew.2] at hreach
          have habove := hlater.isPrefix_of_reach hsound hnone hdots.2 hreach
          have hlength := habove.length_le
          rw [← hroute, List.length_append, List.length_singleton] at hlength
          omega

section Write

variable {before made after : Tree} {result : Except DiskFailure Unit} {place : Route}

theorem Makes.isOnWay (h : Makes shell target.parent before made result)
    (hne : made.find? place ≠ before.find? place) : before.IsOnWay shell target place := by
  obtain ⟨front, name, left, parent, hfront, hreach⟩ := h.onWay place hne
  exact ⟨made, front, name, left, parent, h.gains, hfront, hreach⟩

/-- Making the directories changes neither the file nor its temporary file. -/
theorem IsClear.find?_made (h : IsClear before shell target)
    (hmakes : Makes shell target.parent before made result)
    (hlocation : location = target ∨ target.appending? temporaryEnding = some location)
    (hplace : before.IsPlaceOf shell location place) :
    made.find? place = before.find? place := by
  apply Classical.byContradiction
  intro hne
  cases hmakes.gains place with
  | inl hsame => exact hne hsame
  | inr hnew => exact h.apart location place hlocation hplace hnew.1 (hmakes.isOnWay hne)

/-- A file that has just come where no link was is found by its path. -/
theorem stat_of_settled {bytes : List UInt8}
    (hgoal : made.filePlace? shell false target = some place)
    (hafter : ∀ route, after.find? route =
      if route = place then some (.file bytes .recently) else made.find? route)
    (hlink : ∀ path, made.find? place ≠ some (.link path)) :
    after.stat shell target = .ok (place, .file bytes .recently) := by
  obtain ⟨left, parent, name, hleads⟩ := Tree.leads_of_place hgoal
  have hplain := hleads.isPlainName hgoal
  obtain rfl := hleads.eq_of_keep hgoal
  have hkeeps : made.KeepsPaths after := by
    intro route entry hfind hentry
    rw [hafter, if_neg, hfind]
    intro hroute
    rw [hroute] at hfind
    cases entry with
    | file old since => exact hentry old since rfl
    | directory => rw [hleads.filePlace?_keep hplain, if_pos hfind] at hgoal; cases hgoal
    | link path => exact hlink path hfind
  have hthere := hafter (parent ++ [name])
  rw [if_pos rfl] at hthere
  rw [Tree.stat_eq_ok_iff, (hleads.of_keepsPaths hkeeps).locate_eq_ok_iff,
    Tree.walk_single_of_not_link hplain (by simp [hthere]), hthere]

/-- The place of the temporary file is not that of the file. -/
theorem not_isPlaceOf_temporary {temporary : Location}
    (happend : target.appending? temporaryEnding = some temporary)
    (hplace : before.IsPlaceOf shell temporary place) : ¬ before.IsPlaceOf shell target place := by
  intro htarget
  obtain ⟨later, left, parent, name, hlater, hleads, -, rfl⟩ := hplace
  obtain ⟨short, rfl, hshort⟩ := hleads.of_temporary happend
  obtain ⟨last, rest, directory, other, hlast, hends, -, hsame⟩ := htarget
  have hname : [short] = [other] :=
    List.append_cancel_left (hshort.parts.symm.trans hends.parts)
  have hlonger := congrArg List.getLast? hsame
  rw [List.getLast?_concat, List.getLast?_concat, ← List.singleton_inj.mp hname] at hlonger
  exact Tree.ne_temporary short (Option.some.inj hlonger).symm

theorem Settles.allOrNothing (h : Settles shell target text made after result)
    {first : Except DiskFailure Unit} (hmakes : Makes shell target.parent before made first)
    (hclear : IsClear before shell target) :
    AllOrNothing shell target text before after result := by
  -- What differs from the tree with its directories is the place of the file.
  have hother : ∀ route, ¬ before.IsPlaceOf shell target route →
      after.find? route = made.find? route := by
    intro route hroute
    rcases h with ⟨-, hsame⟩ | ⟨-, bytes, goal, -, hgoal, hafter⟩
    · exact hsame route
    · rw [hafter, if_neg]
      rintro rfl
      exact hroute (Tree.isPlaceOf_of_filePlace hmakes.gains hgoal)
  refine ⟨?written, ?kept, ?cleared, ?others⟩
  case written =>
    intro hok
    rcases h with ⟨⟨failure, herror⟩, -⟩ | ⟨-, bytes, goal, hencode, hgoal, hafter⟩
    · rw [hok] at herror
      cases herror
    · have hplace := Tree.isPlaceOf_of_filePlace hmakes.gains hgoal
      refine ⟨bytes, goal, hencode, hplace, by rw [hafter, if_pos rfl], fun hlink => ?_⟩
      refine stat_of_settled hgoal hafter fun path => ?_
      rw [hclear.find?_made hmakes (.inl rfl) hplace]
      exact hlink path
  case kept =>
    intro failure place herror hplace
    rcases h with ⟨-, hsame⟩ | ⟨hok, -⟩
    · rw [hsame, hclear.find?_made hmakes (.inl rfl) hplace]
    · rw [hok] at herror
      cases herror
  case cleared =>
    intro temporary place happend hplace
    rw [hother place (not_isPlaceOf_temporary happend hplace), hclear.find?_made hmakes (.inr happend) hplace]
    exact hclear.vacant temporary place happend hplace
  case others =>
    intro route hroute hne
    rw [hother route hroute] at hne ⊢
    cases hmakes.gains route with
    | inl hsame => exact absurd hsame hne
    | inr hnew => exact ⟨hnew.1, hnew.2, hmakes.isOnWay hne⟩

/-- Writing a text to a file is all or nothing. -/
theorem allOrNothing_wrote (tree : Tree) (shell : Shell) (target : Location)
    (text : Text.Draft) (hclear : IsClear tree shell target) :
    AllOrNothing shell target text tree (wrote shell target text tree).2
      (wrote shell target text tree).1 := by
  obtain ⟨first, edits, hensure, hmakes⟩ :=
    makesOn_ensureDirectories shell target.parent { tree := tree }
  have hnothing : ∀ failure, Settles shell target text (tree.applyAll edits)
      (tree.applyAll edits) (.error failure) :=
    fun failure => .inl ⟨⟨failure, rfl⟩, fun _ => rfl⟩
  unfold wrote
  cases first with
  | error failure =>
      unfold writeText
      rw [runOn_bind, hensure]
      exact (hnothing failure).allOrNothing hmakes hclear
  | ok _ =>
      cases happend : target.appending? temporaryEnding with
      | none =>
          unfold writeText
          rw [runOn_bind, hensure, happend]
          exact (hnothing _).allOrNothing hmakes hclear
      | some temporary =>
          obtain ⟨result, more, hrun, hvia⟩ := runOn_writeVia shell happend text
            (Volume.edit { tree := tree } edits)
          rw [runOn_writeText_of_ensured hensure happend, hrun]
          refine (hvia.settles fun route hkeep => ?_).allOrNothing hmakes hclear
          have hplace := Tree.isPlaceOf_of_filePlace hmakes.gains hkeep
          rw [Volume.edit_tree, hclear.find?_made hmakes (.inr happend) hplace]
          exact hclear.vacant temporary route happend hplace

/-- The path has to be clear: `/a/../a` leads through a directory that is its own place. The
directory is made, so the write fails with a target that was not there before. -/
theorem not_allOrNothing_of_detour :
    (∀ temporary place,
      (Location.mk .single ["a", "..", "a"]).appending? temporaryEnding = some temporary →
      ({} : Tree).IsPlaceOf ⟨[], []⟩ temporary place → ({} : Tree).find? place = none) ∧
    ¬ AllOrNothing ⟨[], []⟩ ⟨.single, ["a", "..", "a"]⟩ "x" {}
      (wrote ⟨[], []⟩ ⟨.single, ["a", "..", "a"]⟩ "x" {}).2
      (wrote ⟨[], []⟩ ⟨.single, ["a", "..", "a"]⟩ "x" {}).1 := by
  refine ⟨?_, fun h => ?_⟩
  · intro temporary place _ hplace
    obtain ⟨later, left, parent, name, -, -, -, rfl⟩ := hplace
    exact Tree.find?_of_ne_nil _ (by simp)
  · have hresult : (wrote ⟨[], []⟩ ⟨.single, ["a", "..", "a"]⟩ "x" {}).1 =
        .error (.refused .isDirectory "/a/../a.tmp" (some "/a/../a")) := by
      decide +kernel
    have hafter : (wrote ⟨[], []⟩ ⟨.single, ["a", "..", "a"]⟩ "x" {}).2.find? ["a"] =
        some .directory := by
      decide +kernel
    have hgains : ({} : Tree).GainsDirectories ⟨[(["a"], .directory)]⟩ :=
      @Tree.GainsDirectories.put_directory {} [] "a" rfl
    have hplace : ({} : Tree).IsPlaceOf ⟨[], []⟩ ⟨.single, ["a", "..", "a"]⟩ ["a"] :=
      ⟨_, Tree.maxLinks, [], "a", hgains, ⟨by decide +kernel, rfl, by rfl⟩, by decide, rfl⟩
    have hkept := h.kept _ _ hresult hplace
    rw [hafter] at hkept
    cases hkept

/-- A directory with an empty file in it. -/
def nestedTree : Tree := ⟨[(["a"], .directory), (["a", "b"], .file [] (.at 0))]⟩

/-- The file is written over, and this is all that changes. -/
theorem allOrNothing_wrote_nested :
    IsClear nestedTree ⟨[], []⟩ ⟨.single, ["a", "b"]⟩ ∧
    AllOrNothing ⟨[], []⟩ ⟨.single, ["a", "b"]⟩ "x" nestedTree
      ⟨[(["a"], .directory), (["a", "b"], .file [120] .recently)]⟩ (.ok ()) := by
  have hsound : nestedTree.IsSound :=
    (Tree.isPlain_of_entries (by decide) (by decide) (by decide) :
      nestedTree.IsPlain []).sound
  have htemporary : nestedTree.IsPlaceOf ⟨[], []⟩ ⟨.single, ["a", "b.tmp"]⟩ ["a", "b.tmp"] :=
    ⟨nestedTree, Tree.maxLinks, ["a"], "b.tmp", .refl _, ⟨by decide +kernel, rfl, by rfl⟩,
      by decide, rfl⟩
  have hclear : IsClear nestedTree ⟨[], []⟩ ⟨.single, ["a", "b"]⟩ := by
    apply isClear_of_isSound hsound (by decide)
    intro temporary place happend hplace
    cases happend
    rw [hplace.unique htemporary]
    rfl
  exact ⟨hclear, allOrNothing_wrote nestedTree ⟨[], []⟩ ⟨.single, ["a", "b"]⟩ "x" hclear⟩

end Write

end Disk

end SourceAtlas
