import SourceAtlas.Proofs.Disk.Run
import SourceAtlas.Proofs.Tree.Temporary

/-!
# Writing through a temporary file

A write makes one of four lists of edits: none, the removal of a link that leads to no file, a
temporary file that is put and removed, or a temporary file that is moved into place. Which one it
is follows from where the two locations lead before the write.
-/

namespace SourceAtlas

namespace Tree

variable {tree : Tree} {shell : Shell} {location : Location}

/-- The route at which there is a file after a location is written to, with a link at its end
followed or replaced. There is none where a directory is, or where the location does not lead. -/
def filePlace? (tree : Tree) (shell : Shell) (follow : Bool) (location : Location) : Option Route :=
  match tree.locate shell follow location with
  | .ok (.vacant directory name) => some (directory ++ [name])
  | .ok (.here _ .directory) => none
  | .ok (.here route _) => some route
  | .error _ => none

theorem not_link_of_walk {links : Nat} {directory : Route} {names : List String} {route : Route}
    {entry : Entry} (h : walk tree true links directory names = .ok (.here route entry))
    (target : String) : entry ≠ .link target := by
  have harrives := arrives_iff.mpr h
  clear h
  generalize hspot : Spot.here route entry = spot at harrives
  induction harrives with
  | nil => cases hspot; exact Entry.noConfusion
  | dot _ ih => exact ih hspot
  | dots _ ih => exact ih hspot
  | vacant => cases hspot
  | file => cases hspot; exact Entry.noConfusion
  | directory _ _ _ ih => exact ih hspot
  | link _ _ _ ih => exact ih hspot

/-- What is at the place that a written file gets: nothing, or another file. -/
theorem find?_of_filePlace {place : Route} (h : tree.filePlace? shell true location = some place) :
    place ≠ [] ∧
      (tree.find? place = none ∨ ∃ old since, tree.find? place = some (.file old since)) := by
  unfold filePlace? at h
  split at h
  · next directory name hlocate =>
      cases h
      have hholds := holds_of_walk (locate_eq_ok_iff.mp hlocate).2
      exact ⟨by simp, .inl hholds.2⟩
  · cases h
  · next route entry hdirectory hlocate =>
      cases h
      have hwalk := (locate_eq_ok_iff.mp hlocate).2
      cases entry with
      | directory => exact absurd rfl hdirectory
      | link target => exact absurd rfl (not_link_of_walk hwalk target)
      | file bytes modified =>
          rcases holds_of_walk hwalk with hwrong | hfind
          · cases hwrong
          · refine ⟨?_, .inr ⟨bytes, modified, hfind⟩⟩
            rintro rfl
            cases hfind
  · cases h

theorem writeBytes_of_filePlace {place : Route} (bytes : List UInt8)
    (h : tree.filePlace? shell true location = some place) :
    tree.writeBytes shell location bytes = .ok [.put place (.file bytes .recently)] := by
  unfold filePlace? at h
  unfold writeBytes
  cases hlocate : tree.locate shell true location with
  | error failure => rw [hlocate] at h; cases h
  | ok spot =>
      rw [hlocate] at h
      cases spot with
      | vacant directory name => cases h; rfl
      | here route entry =>
          cases entry with
          | file old modified => cases h; rfl
          | directory => cases h
          | link target =>
              exact absurd rfl (not_link_of_walk (locate_eq_ok_iff.mp hlocate).2 target)

theorem writeBytes_of_no_filePlace (bytes : List UInt8)
    (h : tree.filePlace? shell true location = none) :
    ∃ failure, tree.writeBytes shell location bytes = .error failure := by
  unfold filePlace? at h
  unfold writeBytes
  cases hlocate : tree.locate shell true location with
  | error failure => exact ⟨failure, rfl⟩
  | ok spot =>
      rw [hlocate] at h
      cases spot with
      | vacant directory name => cases h
      | here route entry =>
          cases entry with
          | file old modified => cases h
          | directory => exact ⟨_, rfl⟩
          | link target => cases h

/-- The removal of what a location leads to. -/
def removal (tree : Tree) (shell : Shell) (location : Location) : List Edit :=
  match tree.locate shell false location with
  | .ok (.here _ .directory) => []
  | .ok (.here route _) => [.remove route]
  | _ => []

section Leads

variable {left : Nat} {parent : Route} {name : String}

theorem Leads.filePlace?_keep (h : tree.Leads shell location left parent name)
    (hplain : IsPlainName name) :
    tree.filePlace? shell false location =
      if tree.find? (parent ++ [name]) = some .directory then none else some (parent ++ [name]) := by
  unfold filePlace?
  rw [h.locate, walk_single_keep _ _ _ hplain]
  cases tree.find? (parent ++ [name]) with
  | none => rfl
  | some entry => cases entry <;> rfl

theorem Leads.removal (h : tree.Leads shell location left parent name)
    (hplain : IsPlainName name) :
    tree.removal shell location =
      if tree.find? (parent ++ [name]) = none ∨ tree.find? (parent ++ [name]) = some .directory
      then [] else [.remove (parent ++ [name])] := by
  unfold Tree.removal
  rw [h.locate, walk_single_keep _ _ _ hplain]
  cases tree.find? (parent ++ [name]) with
  | none => rfl
  | some entry => cases entry <;> rfl

/-- After a file is put where a location leads, something other than a directory is at the route
of the location itself. -/
theorem Leads.find?_after_put (h : tree.Leads shell location left parent name)
    (hplain : IsPlainName name) {route place : Route} (bytes : List UInt8)
    (hkeep : tree.filePlace? shell false location = some route)
    (hfollow : tree.filePlace? shell true location = some place) :
    ∃ entry, (tree.apply (.put place (.file bytes .recently))).find? route = some entry ∧
      entry ≠ .directory := by
  have hplace := find?_of_filePlace hfollow
  rw [h.filePlace?_keep hplain] at hkeep
  split at hkeep
  · cases hkeep
  · next hdirectory =>
      cases hkeep
      by_cases hlink : ∃ target, tree.find? (parent ++ [name]) = some (.link target)
      · obtain ⟨target, hlink⟩ := hlink
        have hkeeps := keepsPaths_put_file bytes .recently hplace.2
        exact ⟨_, hkeeps _ _ hlink fun _ _ => Entry.noConfusion, Entry.noConfusion⟩
      · have hsame : place = parent ++ [name] := by
          unfold filePlace? at hfollow
          rw [h.locate, walk_single_of_not_link hplain fun target ht => hlink ⟨target, ht⟩]
            at hfollow
          cases hfind : tree.find? (parent ++ [name]) with
          | none => rw [hfind] at hfollow; cases hfollow; rfl
          | some entry =>
              rw [hfind] at hfollow
              cases entry with
              | file old since => cases hfollow; rfl
              | directory => exact absurd hfind hdirectory
              | link target => exact absurd ⟨target, hfind⟩ hlink
        refine ⟨.file bytes .recently, ?_, Entry.noConfusion⟩
        rw [hsame, find?_apply _ _ (by simp), if_pos (by rfl)]
        rfl

/-- A place for a file is looked up under a plain name. -/
theorem Leads.isPlainName (h : tree.Leads shell location left parent name) {follow : Bool}
    {place : Route} (hplace : tree.filePlace? shell follow location = some place) :
    IsPlainName name := by
  unfold filePlace? at hplace
  rw [h.locate] at hplace
  rcases name_cases name with rfl | rfl | hplain | ⟨hdot, hdots, hlong⟩
  · rw [walk_dot, walk_nil] at hplace
    cases hplace
  · rw [walk_dots, walk_nil] at hplace
    cases hplace
  · exact hplain
  · rw [walk_long _ _ _ _ hdot hdots hlong] at hplace
    cases hplace

theorem Leads.eq_of_keep (h : tree.Leads shell location left parent name) {route : Route}
    (hkeep : tree.filePlace? shell false location = some route) : route = parent ++ [name] := by
  rw [h.filePlace?_keep (h.isPlainName hkeep)] at hkeep
  split at hkeep
  · cases hkeep
  · exact (Option.some.inj hkeep).symm

/-- Where a file can be followed to, there is a place for it that does not follow the last link. -/
theorem Leads.place_of_follow (h : tree.Leads shell location left parent name) {place : Route}
    (hfollow : tree.filePlace? shell true location = some place) :
    tree.filePlace? shell false location = some (parent ++ [name]) := by
  have hplain := h.isPlainName hfollow
  rw [h.filePlace?_keep hplain]
  split
  · next hdirectory =>
      unfold filePlace? at hfollow
      rw [h.locate, walk_plain _ _ _ _ hplain, hdirectory] at hfollow
      simp only [walk_nil] at hfollow
      cases hfollow
  · rfl

/-- The place of a file is where the walk ends, unless it ends at a directory. -/
theorem Leads.filePlace?_follow_iff (h : tree.Leads shell location left parent name) :
    tree.filePlace? shell true location = some place ↔
      ∃ spot, walk tree true left parent [name] = .ok spot ∧ spot.route = place ∧
        ∀ found, spot ≠ .here found .directory := by
  unfold filePlace?
  rw [h.locate]
  cases hwalk : walk tree true left parent [name] with
  | error errno => simp
  | ok spot =>
      cases spot with
      | vacant directory name => simp [Spot.route]
      | here route entry => cases entry <;> simp [Spot.route]

/-- The way to a file does not go through the file. -/
theorem Leads.remove (h : tree.Leads shell location left parent name)
    (hplace : tree.filePlace? shell true location = some place) :
    (tree.apply (.remove (parent ++ [name]))).Leads shell location left parent name := by
  obtain ⟨spot, hspot, -, hfile⟩ := h.filePlace?_follow_iff.mp hplace
  exact h.remove_of_ne fun hwalk => walk_unique hspot hwalk ▸ hfile

/-- After a file is put where a location leads, the location finds an entry that can be moved or
removed. -/
theorem Leads.locate_after_put (h : tree.Leads shell location left parent name) {place : Route}
    (hfollow : tree.filePlace? shell true location = some place) (bytes : List UInt8) :
    ∃ entry, (tree.apply (.put place (.file bytes .recently))).locate shell false location =
        .ok (.here (parent ++ [name]) entry) ∧
      (tree.apply (.put place (.file bytes .recently))).find? (parent ++ [name]) = some entry ∧
      (tree.apply (.put place (.file bytes .recently))).removal shell location =
        [.remove (parent ++ [name])] := by
  have hplain := h.isPlainName hfollow
  have hafter := h.of_keepsPaths
    (keepsPaths_put_file bytes .recently (find?_of_filePlace hfollow).2)
  obtain ⟨entry, hfind, hdirectory⟩ :=
    h.find?_after_put hplain bytes (h.place_of_follow hfollow) hfollow
  refine ⟨entry, ?_, hfind, ?_⟩
  · rw [hafter.locate, walk_single_keep _ _ _ hplain, hfind]
    rfl
  · rw [hafter.removal hplain, hfind, if_neg]
    rintro (hwrong | hwrong)
    · cases hwrong
    · exact hdirectory (Option.some.inj hwrong)

/-- A place that cannot be followed to is the place of a link. -/
theorem Leads.removal_of_no_follow (h : tree.Leads shell location left parent name)
    {route : Route} (hkeep : tree.filePlace? shell false location = some route)
    (hfollow : tree.filePlace? shell true location = none) :
    tree.removal shell location = [.remove route] := by
  have hplain := h.isPlainName hkeep
  obtain rfl := h.eq_of_keep hkeep
  rw [h.filePlace?_keep hplain] at hkeep
  rw [h.removal hplain]
  split at hkeep
  · cases hkeep
  · next hdirectory =>
      rw [if_neg]
      rintro (hnone | hsome)
      · unfold filePlace? at hfollow
        rw [h.locate, walk_plain _ _ _ _ hplain, hnone] at hfollow
        cases hfollow
      · exact hdirectory hsome

theorem removal_of_no_place (h : tree.filePlace? shell false location = none) :
    tree.removal shell location = [] := by
  unfold filePlace? at h
  unfold Tree.removal
  cases hlocate : tree.locate shell false location with
  | error failure => rfl
  | ok spot =>
      rw [hlocate] at h
      cases spot with
      | vacant directory name => cases h
      | here route entry => cases entry <;> first | rfl | cases h

/-- Putting a file where one can be put changes no place of another location in the directory. -/
theorem Leads.filePlace?_after_put (h : tree.Leads shell location left parent name)
    {place : Route} (bytes : List UInt8)
    (hplace : tree.find? place = none ∨ ∃ old since, tree.find? place = some (.file old since)) :
    (tree.apply (.put place (.file bytes .recently))).filePlace? shell false location =
      tree.filePlace? shell false location := by
  have hafter := h.of_keepsPaths (keepsPaths_put_file bytes .recently hplace)
  rcases name_cases name with rfl | rfl | hplain | ⟨hdot, hdots, hlong⟩
  · unfold filePlace?
    rw [h.locate, hafter.locate, walk_dot, walk_dot, walk_nil, walk_nil]
  · unfold filePlace?
    rw [h.locate, hafter.locate, walk_dots, walk_dots, walk_nil, walk_nil]
  · rw [h.filePlace?_keep hplain, hafter.filePlace?_keep hplain, find?_apply _ _ (by simp)]
    by_cases hsame : parent ++ [name] = place
    · rcases hplace with hnone | ⟨old, since, hfile⟩
      · simp [Edit.route, Edit.entry?, hsame, hnone]
      · simp [Edit.route, Edit.entry?, hsame, hfile]
    · simp [Edit.route, hsame]
  · unfold filePlace?
    rw [h.locate, hafter.locate, walk_long _ _ _ _ hdot hdots hlong,
      walk_long _ _ _ _ hdot hdots hlong]

end Leads

/-- A place is looked up in a directory that the location leads to. -/
theorem leads_of_place {follow : Bool} {place : Route}
    (h : tree.filePlace? shell follow location = some place) :
    ∃ left parent name, tree.Leads shell location left parent name := by
  unfold filePlace? at h
  cases hlast : location.parts.getLast? with
  | none =>
      cases hlocate : tree.locate shell follow location with
      | error failure => rw [hlocate] at h; cases h
      | ok spot =>
          have hwalk := (locate_eq_ok_iff.mp hlocate).2
          rw [List.getLast?_eq_none_iff.mp hlast, walk_nil] at hwalk
          cases hwalk
          rw [hlocate] at h
          cases h
  | some name =>
      rcases leads_or_error tree shell hlast with
        ⟨left, parent, hleads⟩ | herror
      · exact ⟨left, parent, name, hleads⟩
      · obtain ⟨failure, hlocate⟩ := herror follow
        rw [hlocate] at h
        cases h

section Rename

variable {source target : Location} {route goal : Route} {entry : Entry}

theorem rename_of_place (hsource : tree.locate shell false source = .ok (.here route entry))
    (hname : target.name ≠ "..") (hgoal : tree.filePlace? shell false target = some goal) :
    tree.rename shell source target = .ok [.remove route, .put goal entry] := by
  unfold filePlace? at hgoal
  unfold rename
  simp only [hsource, bind, Except.bind, if_neg hname]
  cases hlocate : tree.locate shell false target with
  | error failure => rw [hlocate] at hgoal; cases hgoal
  | ok spot =>
      rw [hlocate] at hgoal
      cases spot with
      | vacant directory name => cases hgoal; rfl
      | here place old => cases old <;> cases hgoal <;> rfl

theorem rename_of_no_place (hsource : tree.locate shell false source = .ok (.here route entry))
    (hgoal : tree.filePlace? shell false target = none) :
    ∃ failure, tree.rename shell source target = .error failure := by
  unfold filePlace? at hgoal
  unfold rename
  simp only [hsource, bind, Except.bind]
  split
  · exact ⟨_, rfl⟩
  · cases hlocate : tree.locate shell false target with
    | error failure => exact ⟨_, rfl⟩
    | ok spot =>
        rw [hlocate] at hgoal
        cases spot with
        | vacant directory name => cases hgoal
        | here place old =>
            cases old with
            | directory => exact ⟨_, rfl⟩
            | file bytes modified => cases hgoal
            | link path => cases hgoal

end Rename

end Tree

/-! ## The steps of a write -/

namespace Disk

variable {shell : Shell} {temporary target : Location} {text : Text.Draft} {volume : Volume}

theorem runOn_removeIfPresent (shell : Shell) (location : Location) (volume : Volume) :
    ∃ result, runOn (removeIfPresent shell location) volume =
      (result, volume.edit (volume.tree.removal shell location)) := by
  unfold removeIfPresent Tree.removal Tree.unlink
  rw [runOn_tree_bind]
  cases hlocate : volume.tree.locate shell false location with
  | error failure =>
      cases failure with
      | refused errno path goal =>
          cases errno with
          | noEntry => exact ⟨.ok (), by simp [bind, Except.bind]⟩
          | _ => exact ⟨_, by simp [bind, Except.bind]; rfl⟩
      | _ => exact ⟨_, by simp [bind, Except.bind]; rfl⟩
  | ok spot =>
      cases spot with
      | vacant directory name => exact ⟨.ok (), by simp [bind, Except.bind]⟩
      | here route entry =>
          cases entry with
          | directory => exact ⟨_, by simp [bind, Except.bind]; rfl⟩
          | file bytes modified => exact ⟨.ok (), rfl⟩
          | link goal => exact ⟨.ok (), rfl⟩

theorem runOn_fill_of_place (text : Text.Draft) {place : Route}
    (h : volume.tree.filePlace? shell true temporary = some place) :
    runOn (fill shell temporary text) volume =
      match text.encode with
      | .ok bytes => (.ok (), volume.edit [.put place (.file bytes .recently)])
      | .error cause =>
          (.error (.encoding (.unencodable cause)),
            volume.edit [.put place (.file [] .recently)]) := by
  unfold fill
  cases text.encode with
  | ok bytes =>
      simp only [runOn_change]
      rw [Tree.writeBytes_of_filePlace bytes h]
  | error cause =>
      simp only [runOn_bind, runOn_change]
      rw [Tree.writeBytes_of_filePlace [] h]
      rfl

theorem runOn_fill_of_no_place (text : Text.Draft)
    (h : volume.tree.filePlace? shell true temporary = none) :
    ∃ failure, runOn (fill shell temporary text) volume = (.error failure, volume) := by
  unfold fill
  cases text.encode with
  | ok bytes =>
      obtain ⟨failure, hfail⟩ := Tree.writeBytes_of_no_filePlace bytes h
      exact ⟨failure, by simp only [runOn_change, hfail]⟩
  | error cause =>
      obtain ⟨failure, hfail⟩ := Tree.writeBytes_of_no_filePlace [] h
      exact ⟨failure, by simp only [runOn_bind, runOn_change, hfail]⟩

/-- When a file cannot be filled or moved, only its temporary file is removed again. -/
theorem runOn_writeVia_of_error {failure : DiskFailure} {edits : List Edit}
    (h : runOn (do fill shell temporary text; change (·.rename shell temporary target)) volume =
      (.error failure, volume.edit edits)) :
    ∃ failure, runOn (writeVia shell temporary target text) volume =
      (.error failure,
        volume.edit (edits ++ (volume.edit edits).tree.removal shell temporary)) := by
  obtain ⟨result, hremove⟩ := runOn_removeIfPresent shell temporary (volume.edit edits)
  unfold writeVia
  simp only [runOn_tryCatch, h, runOn_bind, hremove, Volume.edit_edit]
  cases result with
  | ok _ => exact ⟨failure, rfl⟩
  | error other => exact ⟨other, rfl⟩

/-! ## The whole write -/

/-- How a write through a temporary file ends, and the edits that it makes. -/
inductive Via (tree : Tree) (shell : Shell) (temporary target : Location) (text : Text.Draft) :
    Except DiskFailure Unit → List Edit → Prop
  /-- There is no place for the temporary file. -/
  | unreached {failure : DiskFailure}
      (hkeep : tree.filePlace? shell false temporary = none)
      (hfollow : tree.filePlace? shell true temporary = none) :
      Via tree shell temporary target text (.error failure) []
  /-- At the place of the temporary file there is a link that leads to no file. -/
  | blocked {failure : DiskFailure} {route : Route}
      (hkeep : tree.filePlace? shell false temporary = some route)
      (hfollow : tree.filePlace? shell true temporary = none) :
      Via tree shell temporary target text (.error failure) [.remove route]
  /-- The text has no encoding, or there is no place for the file. -/
  | dropped {failure : DiskFailure} {route place : Route} {bytes : List UInt8}
      (hkeep : tree.filePlace? shell false temporary = some route)
      (hfollow : tree.filePlace? shell true temporary = some place)
      (hcause : (text.encode = .ok bytes ∧ tree.filePlace? shell false target = none) ∨
        ((∃ cause, text.encode = .error cause) ∧ bytes = [])) :
      Via tree shell temporary target text (.error failure)
        [.put place (.file bytes .recently), .remove route]
  /-- The temporary file takes the place of the file. -/
  | moved {route place goal : Route} {bytes : List UInt8} {entry : Entry}
      (hkeep : tree.filePlace? shell false temporary = some route)
      (hfollow : tree.filePlace? shell true temporary = some place)
      (hencode : text.encode = .ok bytes)
      (hgoal : tree.filePlace? shell false target = some goal)
      (hparent : route.dropLast = goal.dropLast) (hne : route ≠ goal)
      (hentry : (tree.apply (.put place (.file bytes .recently))).find? route = some entry) :
      Via tree shell temporary target text (.ok ())
        [.put place (.file bytes .recently), .remove route, .put goal entry]

theorem runOn_writeVia_of_no_follow (text : Text.Draft) (target : Location)
    (hfollow : volume.tree.filePlace? shell true temporary = none) :
    ∃ failure, runOn (writeVia shell temporary target text) volume =
      (.error failure, volume.edit (volume.tree.removal shell temporary)) := by
  obtain ⟨failure, hfill⟩ := runOn_fill_of_no_place text hfollow
  have hrun : runOn (do fill shell temporary text; change (·.rename shell temporary target))
      volume = (.error failure, volume.edit []) := by
    rw [runOn_bind, hfill, Volume.edit_nil]
  simpa using runOn_writeVia_of_error hrun

/-- A temporary file that is filled and cannot be moved is removed again. -/
theorem runOn_writeVia_of_dropped {failure : DiskFailure} {route place : Route}
    {bytes : List UInt8}
    (hremoval : (volume.tree.apply (.put place (.file bytes .recently))).removal shell temporary =
      [.remove route])
    (hrun : runOn (do fill shell temporary text; change (·.rename shell temporary target)) volume =
      (.error failure, volume.edit [.put place (.file bytes .recently)])) :
    ∃ failure, runOn (writeVia shell temporary target text) volume =
      (.error failure, volume.edit [.put place (.file bytes .recently), .remove route]) := by
  obtain ⟨failure, hvia⟩ := runOn_writeVia_of_error hrun
  rw [Volume.edit_tree, Tree.applyAll_cons, Tree.applyAll_nil, hremoval] at hvia
  exact ⟨failure, hvia⟩

/-- The temporary file has a place: what is put there is moved or removed. -/
theorem runOn_writeVia_of_place {left : Nat} {parent : Route} {name : String} {place : Route}
    (happend : target.appending? temporaryEnding = some temporary)
    (hleads : volume.tree.Leads shell temporary left parent name)
    (hfollow : volume.tree.filePlace? shell true temporary = some place) (text : Text.Draft) :
    ∃ result edits, runOn (writeVia shell temporary target text) volume =
        (result, volume.edit edits) ∧
      Via volume.tree shell temporary target text result edits := by
  have hkeep := hleads.place_of_follow hfollow
  obtain ⟨short, rfl, htarget⟩ := hleads.of_temporary happend
  have hfill := runOn_fill_of_place text hfollow
  cases hencode : text.encode with
  | error cause =>
      rw [hencode] at hfill
      obtain ⟨-, -, -, hremoval⟩ := hleads.locate_after_put hfollow []
      have hrun : runOn (do fill shell temporary text; change (·.rename shell temporary target))
          volume = (.error (.encoding (.unencodable cause)),
            volume.edit [.put place (.file [] .recently)]) := by
        rw [runOn_bind, hfill]
      obtain ⟨failure, hvia⟩ := runOn_writeVia_of_dropped hremoval hrun
      exact ⟨_, _, hvia, .dropped hkeep hfollow (.inr ⟨⟨cause, hencode⟩, rfl⟩)⟩
  | ok bytes =>
      rw [hencode] at hfill
      obtain ⟨entry, hlocate, hfind, hremoval⟩ := hleads.locate_after_put hfollow bytes
      have hgoals := htarget.filePlace?_after_put bytes (Tree.find?_of_filePlace hfollow).2
      cases hgoal : volume.tree.filePlace? shell false target with
      | none =>
          obtain ⟨failure, hrename⟩ := Tree.rename_of_no_place hlocate (hgoals.trans hgoal)
          have hrun : runOn (do fill shell temporary text; change (·.rename shell temporary target))
              volume = (.error failure, volume.edit [.put place (.file bytes .recently)]) := by
            simp only [runOn_bind, hfill, runOn_change, Volume.edit_tree, Tree.applyAll_cons,
              Tree.applyAll_nil, hrename]
          obtain ⟨failure, hvia⟩ := runOn_writeVia_of_dropped hremoval hrun
          exact ⟨_, _, hvia, .dropped hkeep hfollow (.inl ⟨hencode, hgoal⟩)⟩
      | some goal =>
          obtain rfl := htarget.eq_of_keep hgoal
          have hname : target.name = short := by
            unfold Location.name
            rw [htarget.parts]
            simp
          have hdots : target.name ≠ ".." := hname ▸ (htarget.isPlainName hgoal).2.1
          have hrename := Tree.rename_of_place hlocate hdots (hgoals.trans hgoal)
          refine ⟨.ok (), [.put place (.file bytes .recently)] ++ [.remove _, .put _ entry], ?_,
            .moved hkeep hfollow hencode hgoal (by simp) ?_ hfind⟩
          · unfold writeVia
            simp only [runOn_tryCatch, runOn_bind, hfill, runOn_change, Volume.edit_tree,
              Tree.applyAll_cons, Tree.applyAll_nil, hrename, Volume.edit_edit]
          · intro hsame
            simp only [List.append_cancel_left_eq, List.cons.injEq, and_true] at hsame
            exact Tree.ne_temporary short hsame.symm

theorem runOn_writeVia (shell : Shell) (happend : target.appending? temporaryEnding = some temporary)
    (text : Text.Draft) (volume : Volume) :
    ∃ result edits, runOn (writeVia shell temporary target text) volume =
        (result, volume.edit edits) ∧
      Via volume.tree shell temporary target text result edits := by
  cases hfollow : volume.tree.filePlace? shell true temporary with
  | none =>
      obtain ⟨failure, hrun⟩ := runOn_writeVia_of_no_follow text target hfollow
      cases hkeep : volume.tree.filePlace? shell false temporary with
      | none =>
          rw [Tree.removal_of_no_place hkeep] at hrun
          exact ⟨_, _, hrun, .unreached hkeep hfollow⟩
      | some route =>
          obtain ⟨left, parent, name, hleads⟩ := Tree.leads_of_place hkeep
          rw [hleads.removal_of_no_follow hkeep hfollow] at hrun
          exact ⟨_, _, hrun, .blocked hkeep hfollow⟩
  | some place =>
      obtain ⟨left, parent, name, hleads⟩ := Tree.leads_of_place hfollow
      exact runOn_writeVia_of_place happend hleads hfollow text

end Disk

end SourceAtlas
