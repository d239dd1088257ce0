import SourceAtlas.Project.Generation
import SourceAtlas.Proofs.Disk.Atomicity
import SourceAtlas.Proofs.Text.Returns
import SourceAtlas.Proofs.Text.Utf8

/-!
# Reading what was written

A text that was written is read as it was, but for its line breaks in the case of the lenient reader,
provided that the path still leads to it. The entry at the end of the path is replaced by that of the
temporary file, so neither of the two may be needed to find what the other one leads to.
-/

namespace SourceAtlas.Disk

variable {tree after : Tree} {shell : Shell} {target temporary : Location} {left : Nat}
  {parent place : Route} {short : String} {bytes : List UInt8} {text : Text.Draft}
  {edits : List Edit}

/-! ## The entry that is moved -/

/-- The temporary file is found without the entry of the file, and it is another file. -/
def Bypasses (tree : Tree) (shell : Shell) (target : Location) : Prop :=
  ∃ temporary goal place, target.appending? temporaryEnding = some temporary ∧
    tree.filePlace? shell false target = some goal ∧
    (tree.apply (.remove goal)).filePlace? shell true temporary = some place ∧ place ≠ goal

/-- A temporary file beside a file is filled, which may be through a link, and its entry is moved to
that of the file. -/
structure Moves (tree after : Tree) (shell : Shell) (target temporary : Location) (left : Nat)
    (parent place : Route) (short : String) (bytes : List UInt8) : Prop where
  append : target.appending? temporaryEnding = some temporary
  beside : tree.Leads shell temporary left parent (short ++ temporaryEnding)
  leads : tree.Leads shell target left parent short
  follow : tree.filePlace? shell true temporary = some place
  goal : tree.filePlace? shell false target = some (parent ++ [short])
  find? : ∀ route, after.find? route =
    if route = parent ++ [short] then
      (tree.apply (.put place (.file bytes .recently))).find? (parent ++ [short ++ temporaryEnding])
    else if route = parent ++ [short ++ temporaryEnding] then none
    else if route = place then some (.file bytes .recently)
    else tree.find? route

theorem Via.moves (hvia : Via tree shell temporary target text (.ok ()) edits)
    (happend : target.appending? temporaryEnding = some temporary) :
    ∃ left parent place short bytes, text.encode = .ok bytes ∧
      Moves tree (tree.applyAll edits) shell target temporary left parent place short bytes := by
  cases hvia with
  | @moved route place goal bytes entry hkeep hfollow hencode hgoal hparent hne hentry =>
      obtain ⟨left, parent, name, hleads⟩ := Tree.leads_of_place hkeep
      obtain ⟨short, rfl, htarget⟩ := hleads.of_temporary happend
      obtain rfl := hleads.eq_of_keep hkeep
      obtain rfl := htarget.eq_of_keep hgoal
      have hplace := (Tree.find?_of_filePlace hfollow).1
      refine ⟨left, parent, place, short, bytes, hencode, happend, hleads, htarget, hfollow, hgoal,
        fun other => ?_⟩
      simp only [Tree.applyAll_cons, Tree.applyAll_nil]
      rw [Tree.find?_put _ (by simp), Tree.find?_remove _ (by simp), hentry, Tree.find?_put _ hplace]

theorem find?_without {route : Route} (hne : route ≠ parent ++ [short]) :
    (tree.apply (.remove (parent ++ [short]))).find? route = tree.find? route := by
  rw [Tree.find?_remove _ (by simp), if_neg hne]

theorem beside_ne (parent : Route) (short : String) :
    parent ++ [short ++ temporaryEnding] ≠ parent ++ [short] := fun hsame =>
  Tree.ne_temporary short (List.singleton_inj.mp (List.append_cancel_left hsame)).symm

namespace Moves

variable (h : Moves tree after shell target temporary left parent place short bytes)

include h

theorem leads_iff {other : Tree} {less : Nat} {directory : Route} :
    other.Leads shell temporary less directory (short ++ temporaryEnding) ↔
      other.Leads shell target less directory short := by
  have hroot : Tree.startOf shell temporary = Tree.startOf shell target ∧
      temporary.parts.dropLast = target.parts.dropLast := by
    obtain ⟨name, hparts, rfl⟩ := Location.appending?_eq_some h.append
    exact ⟨rfl, by simp⟩
  refine ⟨fun hleads => ⟨h.leads.usable, h.leads.parts, ?_⟩,
    fun hleads => ⟨h.beside.usable, h.beside.parts, ?_⟩⟩
  · rw [← hroot.1, ← hroot.2]
    exact hleads.reach
  · rw [hroot.1, hroot.2]
    exact hleads.reach

/-- The temporary file is filled as it is, or it is a link, which is moved as a link. -/
theorem entry_cases :
    (place = parent ++ [short ++ temporaryEnding] ∧
        after.find? (parent ++ [short]) = some (.file bytes .recently)) ∨
      ∃ link, tree.find? (parent ++ [short ++ temporaryEnding]) = some (.link link) ∧
        after.find? (parent ++ [short]) = some (.link link) := by
  obtain ⟨hplace, hfree⟩ := Tree.find?_of_filePlace h.follow
  have hplain := h.beside.isPlainName h.follow
  rw [h.find?, if_pos rfl, Tree.find?_put _ hplace]
  by_cases hlink : ∃ link, tree.find? (parent ++ [short ++ temporaryEnding]) = some (.link link)
  · obtain ⟨link, hlink⟩ := hlink
    refine .inr ⟨link, hlink, ?_⟩
    rw [if_neg, hlink]
    rintro rfl
    rw [hlink] at hfree
    simp at hfree
  · obtain ⟨spot, hspot, hroute, -⟩ := h.beside.filePlace?_follow_iff.mp h.follow
    rw [Tree.walk_single_of_not_link hplain fun link hfind => hlink ⟨link, hfind⟩] at hspot
    have hsame : place = parent ++ [short ++ temporaryEnding] := by
      rw [← hroute]
      split at hspot <;> cases hspot <;> rfl
    exact .inl ⟨hsame, if_pos hsame.symm⟩

/-- What is there afterwards without the file was there before. -/
theorem keepsPaths_back :
    (after.apply (.remove (parent ++ [short]))).KeepsPaths
      (tree.apply (.remove (parent ++ [short]))) := by
  intro route entry hfind hentry
  rw [Tree.find?_remove _ (by simp)] at hfind ⊢
  split at hfind
  · cases hfind
  · next hgoal =>
      rw [h.find?, if_neg hgoal] at hfind
      rw [if_neg hgoal]
      split at hfind
      · cases hfind
      · split at hfind
        · cases hfind
          exact absurd rfl (hentry _ _)
        · exact hfind

/-- What is there without the file and its temporary file is there afterwards. -/
theorem keepsPaths :
    ((tree.apply (.remove (parent ++ [short]))).apply
      (.remove (parent ++ [short ++ temporaryEnding]))).KeepsPaths after := by
  intro route entry hfind hentry
  rw [Tree.find?_remove _ (by simp)] at hfind
  split at hfind
  · cases hfind
  · next hroute =>
      rw [Tree.find?_remove _ (by simp)] at hfind
      split at hfind
      · cases hfind
      · next hgoal =>
          rw [h.find?, if_neg hgoal, if_neg hroute, if_neg, hfind]
          rintro rfl
          obtain ⟨-, hfree⟩ := Tree.find?_of_filePlace h.follow
          rw [hfind] at hfree
          rcases hfree with hnone | ⟨old, since, hfile⟩
          · cases hnone
          · exact hentry old since (Option.some.inj hfile)

/-- The file is no directory afterwards, however its path comes to it. -/
theorem ne_directory {links : Nat} {spot : Spot}
    (hwalk : Tree.walk after true links parent [short] = .ok spot) (found : Route) :
    spot ≠ .here found .directory := by
  have hplain := h.leads.isPlainName h.goal
  rcases h.entry_cases with ⟨-, hfile⟩ | ⟨link, hlink, hmoved⟩
  · rw [Tree.walk_single_of_not_link hplain (by simp [hfile]), hfile] at hwalk
    cases hwalk
    simp
  · rintro rfl
    -- The link that is moved leads to no directory, since the temporary file was filled through it.
    obtain ⟨less, -, hbehind⟩ := Tree.walk_behind_link hplain hmoved hwalk
    obtain ⟨_, hreach⟩ := (Tree.walk_directory_iff _ _ _ _ _).mp hbehind
    have hbefore := Tree.reach_of_keepsPaths (Tree.keepsPaths_remove tree _)
      (Tree.reach_of_keepsPaths h.keepsPaths_back hreach)
    obtain ⟨spot, hspot, -, hspotFile⟩ := h.beside.filePlace?_follow_iff.mp h.follow
    obtain ⟨more, -, hthrough⟩ :=
      Tree.walk_link_single (h.beside.isPlainName h.follow) hlink hspot
    exact hspotFile found
      (Tree.walk_unique hthrough ((Tree.walk_directory_iff _ _ _ _ _).mpr ⟨_, hbefore⟩))

/-- A temporary file that is found without the file leaves a file that is found. -/
theorem exists_stat (hbypass : Bypasses tree shell target) :
    ∃ found, after.stat shell target = .ok (found, .file bytes .recently) := by
  obtain ⟨other, goal, found, happend, hgoal, hfollow, hne⟩ := hbypass
  obtain rfl := Option.some.inj (h.append.symm.trans happend)
  obtain rfl := Option.some.inj (h.goal.symm.trans hgoal)
  obtain ⟨less, directory, name, hwithout⟩ := Tree.leads_of_place hfollow
  obtain ⟨rfl, rfl, rfl⟩ :=
    h.beside.unique (hwithout.of_keepsPaths (Tree.keepsPaths_remove tree _))
  have hplain := h.leads.isPlainName h.goal
  -- The way to the file goes through neither of the two entries.
  have hlast := h.leads_iff.mp ((hwithout.remove hfollow).of_keepsPaths h.keepsPaths)
  simp only [Tree.stat_eq_ok_iff, hlast.locate_eq_ok_iff]
  rcases h.entry_cases with ⟨-, hfile⟩ | ⟨link, hlink, hmoved⟩
  · exact ⟨_, by rw [Tree.walk_single_of_not_link hplain (by simp [hfile]), hfile]⟩
  · obtain ⟨spot, hspot, hroute, hspotFile⟩ := hwithout.filePlace?_follow_iff.mp hfollow
    have hlinkWithout : (tree.apply (.remove (parent ++ [short]))).find?
        (parent ++ [short ++ temporaryEnding]) = some (.link link) := by
      rw [Tree.find?_remove _ (by simp), if_neg (beside_ne parent short), hlink]
    obtain ⟨fewer, rfl, hbehind⟩ :=
      Tree.walk_behind_link (h.beside.isPlainName h.follow) hlinkWithout hspot
    -- The link leads to the place that was filled.
    have hfree := (Tree.find?_of_filePlace hfollow).2
    rw [Tree.find?_remove _ (by simp), if_neg hne] at hfree
    obtain ⟨before, hbefore, hsame, hbeforeFile⟩ := Tree.walk_of_keepsPaths
      (Tree.keepsPaths_remove tree _) hspot hspotFile (hroute ▸ hfree)
    have hplace : place = found := Option.some.inj (h.follow.symm.trans
      (h.beside.filePlace?_follow_iff.mpr ⟨before, hbefore, hsame.trans hroute, hbeforeFile⟩))
    have hthere : after.find? spot.route = some (.file bytes .recently) := by
      rw [hroute, h.find?, if_neg hne, if_neg, if_pos hplace.symm]
      rintro rfl
      rw [hlink] at hfree
      simp at hfree
    obtain ⟨last, hwalk, hends, hlastFile⟩ :=
      Tree.walk_of_keepsPaths h.keepsPaths hbehind hspotFile (.inr ⟨_, _, hthere⟩)
    refine ⟨last.route, ?_⟩
    rw [Tree.walk_link hplain hmoved, List.append_nil,
      ← (Tree.holds_of_walk hwalk).eq_here hlastFile (hends ▸ hthere)]
    exact hwalk

/-- What is found afterwards without the file is another file, or one for which there was room. -/
theorem free_of_walk {links : Nat} {start found : Route} {names : List String} {entry : Entry}
    (hwalk : Tree.walk (after.apply (.remove (parent ++ [short]))) true links start names =
      .ok (.here found entry)) (hfile : ∀ place, Spot.here found entry ≠ .here place .directory) :
    found ≠ parent ++ [short] ∧
      (tree.find? found = none ∨ ∃ old since, tree.find? found = some (.file old since)) := by
  rcases Tree.holds_of_walk hwalk with rfl | hfind
  · exact absurd rfl (hfile found)
  cases entry with
  | directory => exact absurd rfl (hfile found)
  | link link => exact absurd rfl (Tree.not_link_of_walk hwalk link)
  | file old since =>
      rw [Tree.find?_remove _ (by simp)] at hfind
      split at hfind
      · cases hfind
      · next hne =>
          refine ⟨hne, ?_⟩
          rw [h.find?, if_neg hne] at hfind
          split at hfind
          · cases hfind
          · split at hfind
            · next hplace => exact hplace ▸ (Tree.find?_of_filePlace h.follow).2
            · exact .inr ⟨old, since, hfind⟩

theorem bypasses_of_walk {spot : Spot}
    (hleads : (tree.apply (.remove (parent ++ [short]))).Leads shell target left parent short)
    (hwalk : Tree.walk (tree.apply (.remove (parent ++ [short]))) true left parent
      [short ++ temporaryEnding] = .ok spot)
    (hfile : ∀ found, spot ≠ .here found .directory) (hne : spot.route ≠ parent ++ [short]) :
    Bypasses tree shell target :=
  ⟨temporary, _, spot.route, h.append, h.goal,
    (h.leads_iff.mpr hleads).filePlace?_follow_iff.mpr ⟨spot, hwalk, rfl, hfile⟩, hne⟩

/-- A temporary file that is no link is found where it is. -/
theorem bypasses_of_filled
    (hleads : (tree.apply (.remove (parent ++ [short]))).Leads shell target left parent short)
    (hplace : place = parent ++ [short ++ temporaryEnding]) : Bypasses tree shell target := by
  obtain ⟨-, hfree⟩ := Tree.find?_of_filePlace h.follow
  rw [hplace, ← find?_without (beside_ne parent short)] at hfree
  obtain ⟨spot, hwalk, hroute, hfile⟩ :=
    Tree.walk_single_of_free left (h.beside.isPlainName h.follow) hfree
  exact h.bypasses_of_walk hleads hwalk hfile (hroute ▸ beside_ne parent short)

/-- A file that is found afterwards is one whose temporary file is found without it. -/
theorem bypasses {found : Route} {entry : Entry}
    (hstat : after.stat shell target = .ok (found, entry)) : Bypasses tree shell target := by
  have hlocate := Tree.stat_eq_ok_iff.mp hstat
  obtain ⟨less, directory, hafter⟩ : ∃ less directory,
      after.Leads shell target less directory short := by
    have hlast : target.parts.getLast? = some short := by
      rw [h.leads.parts, List.getLast?_concat]
    refine (Tree.leads_or_error after shell hlast).resolve_right fun herror => ?_
    obtain ⟨failure, hfail⟩ := herror true
    cases hfail.symm.trans hlocate
  -- The way to the file does not go through the file.
  have hwithout := (hafter.remove_of_ne h.ne_directory).of_keepsPaths h.keepsPaths_back
  obtain ⟨rfl, rfl, -⟩ :=
    h.leads.unique (hwithout.of_keepsPaths (Tree.keepsPaths_remove tree _))
  rcases h.entry_cases with ⟨hplace, -⟩ | ⟨link, hlink, hmoved⟩
  · exact h.bypasses_of_filled hwithout hplace
  · have hwalk := hafter.locate_eq_ok_iff.mp hlocate
    have hfile := h.ne_directory hwalk
    obtain ⟨fewer, rfl, hbehind⟩ :=
      Tree.walk_behind_link (h.leads.isPlainName h.goal) hmoved hwalk
    obtain ⟨hne, hfree⟩ := h.free_of_walk hbehind hfile
    rw [← find?_without hne] at hfree
    obtain ⟨spot, hspot, hroute, hspotFile⟩ :=
      Tree.walk_of_keepsPaths h.keepsPaths_back hbehind hfile hfree
    refine h.bypasses_of_walk hwithout ?_ hspotFile (hroute ▸ hne)
    rw [Tree.walk_link (h.beside.isPlainName h.follow)
      ((find?_without (beside_ne parent short)).trans hlink), List.append_nil]
    exact hspot

/-- Where neither the file nor its temporary file is a link, the one is found without the other. -/
theorem bypasses_of_no_link
    (hlink : ∀ link, tree.find? (parent ++ [short]) ≠ some (.link link))
    (hbeside : ∀ link, tree.find? (parent ++ [short ++ temporaryEnding]) ≠ some (.link link)) :
    Bypasses tree shell target := by
  have hplain := h.leads.isPlainName h.goal
  have hgoal := h.goal
  rw [h.leads.filePlace?_keep hplain] at hgoal
  have hwithout : (tree.apply (.remove (parent ++ [short]))).Leads shell target left parent
      short := h.leads.remove_of_ne fun hwalk found => by
    rw [Tree.walk_single_of_not_link hplain hlink] at hwalk
    rintro rfl
    split at hwalk
    · cases hwalk
    · next hfind =>
        cases hwalk
        rw [if_pos hfind] at hgoal
        cases hgoal
  rcases h.entry_cases with ⟨hplace, -⟩ | ⟨link, hwrong, -⟩
  · exact h.bypasses_of_filled hwithout hplace
  · exact absurd hwrong (hbeside link)

end Moves

/-! ## Reading back -/

/-- The tree once the directories in front of a file are made. -/
def opened (shell : Shell) (target : Location) (tree : Tree) : Tree :=
  (runOn (ensureDirectories shell target.parent) { tree := tree }).2.tree

/-- A write that succeeds comes to the temporary file, and so does that of any other text. -/
theorem exists_via_of_wrote (h : (wrote shell target text tree).1 = .ok ()) :
    ∃ temporary, target.appending? temporaryEnding = some temporary ∧
      ∀ text : Text.Draft, ∃ result edits,
        wrote shell target text tree = (result, (opened shell target tree).applyAll edits) ∧
          Via (opened shell target tree) shell temporary target text result edits := by
  obtain ⟨first, edits, hensure, -⟩ :=
    makesOn_ensureDirectories shell target.parent { tree := tree }
  unfold wrote writeText at h
  rw [runOn_bind, hensure] at h
  cases first with
  | error failure => cases h
  | ok _ =>
      cases happend : target.appending? temporaryEnding with
      | none =>
          rw [happend] at h
          cases h
      | some temporary =>
          refine ⟨temporary, rfl, fun text => ?_⟩
          obtain ⟨result, more, hrun, hvia⟩ := runOn_writeVia shell happend text
            (Volume.edit { tree := tree } edits)
          have hopened : opened shell target tree = tree.applyAll edits := by
            unfold opened
            rw [hensure]
            rfl
          refine ⟨result, more, ?_, hopened ▸ hvia⟩
          unfold wrote
          rw [runOn_writeText_of_ensured hensure happend, hrun, hopened]
          rfl

/-- Whether a write succeeds does not depend on the text, if it has an encoding. -/
theorem Via.ok_of_ok {other : Text.Draft} {result : Except DiskFailure Unit} {more : List Edit}
    (h : Via tree shell temporary target text (.ok ()) edits)
    (hother : Via tree shell temporary target other result more)
    (hencode : other.encode = .ok bytes) : result = .ok () := by
  cases h with
  | moved hkeep hfollow hfirst hgoal hparent hne hentry =>
      cases hother with
      | unreached hkept hnone => cases hnone.symm.trans hfollow
      | blocked hkept hnone => cases hnone.symm.trans hfollow
      | dropped hkept hfollowed hcause =>
          rcases hcause with ⟨-, hnone⟩ | ⟨⟨cause, herror⟩, -⟩
          · cases hnone.symm.trans hgoal
          · cases herror.symm.trans hencode
      | moved => rfl

/-- A text is read as it was written, and by the lenient reader but for its line breaks. -/
structure GivesBack (after : Tree) (shell : Shell) (target : Location) (text : List Char) :
    Prop where
  exact : after.readExact shell target = .ok text
  lenient : after.readLenient shell target = .ok (Text.translateNewlines text)
  plain : '\r' ∉ text → after.readLenient shell target = .ok text
  document : ∀ root page, target = Project.pageLocation root page →
    Generation.existing? after shell root page = some (.ofList (Text.translateNewlines text))

theorem givesBack_of_stat {text : List Char} {found : Route} {modified : Modified}
    (h : after.stat shell target = .ok (found, .file (Text.Utf8.encode text) modified)) :
    GivesBack after shell target text := by
  have hbytes : after.readBytes shell target = .ok (Text.Utf8.encode text) := by
    unfold Tree.readBytes
    rw [h]
    rfl
  have hexact : after.readExact shell target = .ok text := by
    unfold Tree.readExact
    rw [hbytes]
    change (Text.Utf8.decode (Text.Utf8.encode text)).mapError _ = _
    rw [Text.Utf8.decode_encode]
    rfl
  have hlenient : after.readLenient shell target = .ok (Text.translateNewlines text) := by
    unfold Tree.readLenient
    rw [hbytes]
    change Except.ok (Text.translateNewlines (Text.Utf8.decodeReplacing (Text.Utf8.encode text))) = _
    rw [Text.Utf8.decodeReplacing_encode]
  refine ⟨hexact, hlenient, fun hreturn => ?_, fun root page hpage => ?_⟩
  · rw [hlenient, Text.translateNewlines_of_not_mem hreturn]
  · subst hpage
    unfold Generation.existing?
    rw [hlenient]
    rfl

/-- No link is in the place of the file or of its temporary file. -/
def LacksLinks (tree : Tree) (shell : Shell) (target : Location) : Prop :=
  ∀ location route link, location = target ∨ target.appending? temporaryEnding = some location →
    tree.IsPlaceOf shell location route → tree.find? route ≠ some (.link link)

theorem bypasses_of_lacksLinks (h : LacksLinks tree shell target)
    (hmoves : Moves (opened shell target tree) after shell target temporary left parent place short
      bytes) : Bypasses (opened shell target tree) shell target := by
  obtain ⟨result, edits, hensure, hmakes⟩ :=
    makesOn_ensureDirectories shell target.parent { tree := tree }
  have hopened : tree.GainsDirectories (opened shell target tree) := by
    unfold opened
    rw [hensure]
    exact hmakes.gains
  have hkeep := hmoves.beside.place_of_follow hmoves.follow
  refine hmoves.bypasses_of_no_link (fun link hlink => ?_) (fun link hlink => ?_)
  · exact h target _ link (.inl rfl) (Tree.isPlaceOf_of_filePlace hopened hmoves.goal)
      (hopened.old hlink Entry.noConfusion)
  · exact h temporary _ link (.inr hmoves.append) (Tree.isPlaceOf_of_filePlace hopened hkeep)
      (hopened.old hlink Entry.noConfusion)

theorem read_of_stat_error {failure : DiskFailure} (h : after.stat shell target = .error failure) :
    after.readLenient shell target = .error failure ∧
      after.readExact shell target = .error failure := by
  have hbytes : after.readBytes shell target = .error failure := by
    unfold Tree.readBytes
    rw [h]
    rfl
  unfold Tree.readLenient Tree.readExact
  rw [hbytes]
  exact ⟨rfl, rfl⟩

/-- A file that is moved into place gives its text back, or its path leads nowhere any more. -/
theorem Moves.givesBack_or {text : List Char}
    (h : Moves tree after shell target temporary left parent place short (Text.Utf8.encode text)) :
    (Bypasses tree shell target ∧ GivesBack after shell target text) ∨
      (¬ Bypasses tree shell target ∧ ∃ failure, after.readLenient shell target = .error failure ∧
        after.readExact shell target = .error failure) := by
  by_cases hbypass : Bypasses tree shell target
  · obtain ⟨found, hstat⟩ := h.exists_stat hbypass
    exact .inl ⟨hbypass, givesBack_of_stat hstat⟩
  · refine .inr ⟨hbypass, ?_⟩
    cases hstat : after.stat shell target with
    | error failure => exact ⟨failure, read_of_stat_error hstat⟩
    | ok found => exact absurd (h.bypasses hstat) hbypass

/-- Bytes that encode no text are read leniently, and writing a tag turns them down. -/
theorem read_of_malformed (h : tree.readBytes shell target = .ok bytes)
    (hbytes : ∀ text, Text.Utf8.encode text ≠ bytes) :
    (∃ shown, tree.readLenient shell target = .ok shown) ∧
      ∀ tag, ∃ cause, runOn (writeTag shell target tag) { tree := tree } =
        (.error (.encoding (.undecodable cause)), { tree := tree }) := by
  refine ⟨⟨_, by unfold Tree.readLenient; rw [h]; rfl⟩, fun tag => ?_⟩
  obtain ⟨cause, hdecode⟩ := Text.Utf8.exists_decode_eq_error hbytes
  have hexact : tree.readExact shell target = .error (.encoding (.undecodable cause)) := by
    unfold Tree.readExact
    rw [h]
    change (Text.Utf8.decode bytes).mapError _ = _
    rw [hdecode]
    rfl
  refine ⟨cause, ?_⟩
  unfold writeTag
  rw [runOn_bind, runOn_view, hexact]

/-- What is written is read back exactly if the temporary file can be found without the file, as it
can where neither of them is a link; otherwise the path leads nowhere afterwards, and nothing is read.
Bytes that encode no text are read by the lenient reader only. -/
theorem wrote_givesBack_iff (tree : Tree) (shell : Shell) (target : Location) :
    (∀ other : Text.Draft, (wrote shell target other tree).1 = .ok () →
      (LacksLinks tree shell target → Bypasses (opened shell target tree) shell target) ∧
      ∀ text : List Char, (wrote shell target text tree).1 = .ok () ∧
        (GivesBack (wrote shell target text tree).2 shell target text ↔
          Bypasses (opened shell target tree) shell target) ∧
        (¬ GivesBack (wrote shell target text tree).2 shell target text → ∃ failure,
          (wrote shell target text tree).2.readLenient shell target = .error failure ∧
          (wrote shell target text tree).2.readExact shell target = .error failure)) ∧
    ∀ bytes, tree.readBytes shell target = .ok bytes →
      (∀ text, Text.Utf8.encode text ≠ bytes) →
      (∃ shown, tree.readLenient shell target = .ok shown) ∧
      ∀ tag, ∃ cause, runOn (writeTag shell target tag) { tree := tree } =
        (.error (.encoding (.undecodable cause)), { tree := tree }) := by
  refine ⟨fun other hother => ?_, fun bytes hread hbytes => read_of_malformed hread hbytes⟩
  obtain ⟨temporary, happend, hvias⟩ := exists_via_of_wrote hother
  obtain ⟨result, edits, hwrote, hvia⟩ := hvias other
  obtain rfl : result = .ok () := by rwa [hwrote] at hother
  refine ⟨fun hlacks => ?_, fun text => ?_⟩
  · obtain ⟨left, parent, place, short, bytes, -, hmoves⟩ := hvia.moves happend
    exact bypasses_of_lacksLinks hlacks hmoves
  · have hencode := Text.Draft.encode_ofList text
    obtain ⟨last, more, hlast, hmore⟩ := hvias text
    obtain rfl := hvia.ok_of_ok hmore hencode
    obtain ⟨left, parent, place, short, bytes, hbytes, hmoves⟩ := hmore.moves happend
    obtain rfl := Except.ok.inj (hbytes.symm.trans hencode)
    rw [hlast]
    refine ⟨rfl, ?_⟩
    rcases hmoves.givesBack_or with ⟨hbypass, hgives⟩ | ⟨hblocked, failure, hlenient, hexact⟩
    · exact ⟨iff_of_true hgives hbypass, fun hnot => absurd hgives hnot⟩
    · refine ⟨iff_of_false (fun hgives => ?_) hblocked, fun _ => ⟨failure, hlenient, hexact⟩⟩
      cases hgives.exact.symm.trans hexact

/-- The temporary file of one file is a link to this file, and another file is no text. -/
def crossedTree : Tree := ⟨[(["a.tmp"], .link "a"), (["b"], .file [0xFF] (.at 0))]⟩

/-- The file whose temporary file is a link to it ends up as a link to itself. A file beside it is
read back, and the one that is no text gets no tag. -/
theorem wrote_givesBack_iff_crossed :
    ((wrote ⟨[], []⟩ ⟨.single, ["a"]⟩ ['x'] crossedTree).1 = .ok () ∧
      ∃ failure, (wrote ⟨[], []⟩ ⟨.single, ["a"]⟩ ['x'] crossedTree).2.readExact ⟨[], []⟩
        ⟨.single, ["a"]⟩ = .error failure) ∧
    GivesBack (wrote ⟨[], []⟩ ⟨.single, ["c"]⟩ ['x', '\r', '\n'] crossedTree).2 ⟨[], []⟩
      ⟨.single, ["c"]⟩ ['x', '\r', '\n'] ∧
    ∃ cause, runOn (writeTag ⟨[], []⟩ ⟨.single, ["b"]⟩ "// t") { tree := crossedTree } =
      (.error (.encoding (.undecodable cause)), { tree := crossedTree }) := by
  refine ⟨?_, ?_, ?_⟩
  · obtain ⟨-, hall⟩ := (wrote_givesBack_iff crossedTree ⟨[], []⟩ ⟨.single, ["a"]⟩).1 ['x']
      (by decide +kernel)
    obtain ⟨hok, hiff, hnothing⟩ := hall ['x']
    refine ⟨hok, ?_⟩
    obtain ⟨failure, -, hexact⟩ := hnothing fun hgives => by
      obtain ⟨temporary, goal, place, happend, hgoal, hfollow, hne⟩ := hiff.mp hgives
      cases happend
      obtain rfl : ["a"] = goal := Option.some.inj (Eq.trans (by decide +kernel) hgoal)
      obtain rfl : ["a"] = place := Option.some.inj (Eq.trans (by decide +kernel) hfollow)
      exact hne rfl
    exact ⟨failure, hexact⟩
  · obtain ⟨-, hall⟩ := (wrote_givesBack_iff crossedTree ⟨[], []⟩ ⟨.single, ["c"]⟩).1 ['x']
      (by decide +kernel)
    exact (hall ['x', '\r', '\n']).2.1.mpr ⟨⟨.single, ["c.tmp"]⟩, ["c"], ["c.tmp"], rfl,
      by decide +kernel, by decide +kernel, by decide⟩
  · refine ((wrote_givesBack_iff crossedTree ⟨[], []⟩ ⟨.single, ["b"]⟩).2 [0xFF] (by decide +kernel)
      fun text htext => ?_).2 _
    have hnone : (Text.Utf8.decode [0xFF]).toOption = none := by decide +kernel
    rw [← htext, Text.Utf8.decode_encode] at hnone
    cases hnone

end SourceAtlas.Disk
