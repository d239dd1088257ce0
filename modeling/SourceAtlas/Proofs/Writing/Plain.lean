import SourceAtlas.Proofs.Disk.Plain
import SourceAtlas.Proofs.Text.Utf8
import SourceAtlas.Proofs.Writing.Turns

/-!
# What a run changes in a plain project

A document takes its place unless a directory is there, the path is too long, or, for the index, the
directory `docs` cannot be made. A tag takes its place on top of its file unless the file is no text
or the path is too long. Nothing else changes.
-/

namespace SourceAtlas

namespace Disk

variable {shell : Shell} {root front : Route} {name : String} {text : Text.Draft}
  {bytes : List UInt8} {volume : Volume}

theorem parent_ofRoute (route : Route) (name : String) :
    (Location.ofRoute (route ++ [name])).parent = .ofRoute route := by
  simp [Location.parent, Location.ofRoute]

theorem appending?_ofRoute (route : Route) (name ending : String) :
    (Location.ofRoute (route ++ [name])).appending? ending =
      some (.ofRoute (route ++ [name ++ ending])) := by
  simp [Location.appending?, Location.ofRoute]

theorem isUsable_of_takesTemporary {route : Route}
    (h : Tree.takesTemporary (route ++ [name]) = true) :
    (Location.ofRoute (route ++ [name])).IsUsable ∧ (Location.ofRoute route).IsUsable := by
  have husable := (Tree.takesTemporary_iff.mp h).1
  refine ⟨Location.IsUsable.of_appending? (appending?_ofRoute route name _) husable, ?_⟩
  have hparent := husable.parent
  rwa [parent_ofRoute] at hparent

theorem runOn_ensureDirectories_there (hplain : volume.tree.IsPlain root) (shell : Shell)
    {route : Route} (husable : (Location.ofRoute route).IsUsable)
    (hdirectory : volume.tree.find? route = some .directory) :
    runOn (ensureDirectories shell (.ofRoute route)) volume = (.ok (), volume) :=
  runOn_ensureDirectories_of_stat
    (Tree.stat_ofRoute_iff.mpr ⟨husable, hplain.sound.isReal hdirectory⟩)

/-- A text is written to a file in a directory of a plain project, or nothing changes. -/
theorem runOn_writeText_plain (hplain : volume.tree.IsPlain root) (shell : Shell)
    (hparent : volume.tree.find? (root ++ front) = some .directory)
    (hname : Tree.IsPlainName name) (hencode : text.encode = .ok bytes) :
    ∃ result edits,
      runOn (writeText shell (.ofRoute (root ++ (front ++ [name]))) text) volume =
        (result, volume.edit edits) ∧
      if Tree.takesTemporary (root ++ (front ++ [name])) = true ∧
          volume.tree.find? (root ++ (front ++ [name])) ≠ some .directory then
        result = .ok () ∧ volume.tree.IsWith (root ++ (front ++ [name])) (.file bytes .recently)
          (volume.tree.applyAll edits)
      else
        (∃ failure, result = .error failure) ∧
          volume.tree.IsSame (volume.tree.applyAll edits) := by
  have happend := appending?_ofRoute (root ++ front) name temporaryEnding
  have hdirectory := parent_ofRoute (root ++ front) name
  by_cases husable : (Location.ofRoute (root ++ front)).IsUsable
  · have hensure := runOn_ensureDirectories_there hplain shell husable hparent
    obtain ⟨result, edits, hrun, heffect⟩ := runOn_writeVia_plain hplain shell hparent hname hencode
    refine ⟨result, edits, ?_, heffect⟩
    unfold writeText
    simp only [List.append_assoc] at happend hdirectory
    rw [runOn_bind, hdirectory, hensure, happend]
    exact hrun
  · obtain ⟨failure, hcause, hlocate⟩ := Tree.locate_of_not_usable shell husable
    have hmake : volume.tree.makeDirectory shell (.ofRoute (root ++ front)) = .error failure := by
      unfold Tree.makeDirectory
      rw [hlocate]
      rfl
    obtain ⟨result, hensure, hstat⟩ := runOn_ensureDirectories_of_error hmake hcause
    have htakes : ¬ Tree.takesTemporary (root ++ (front ++ [name])) = true := by
      rw [← List.append_assoc]
      exact fun htakes => husable (isUsable_of_takesTemporary htakes).2
    cases result with
    | ok _ =>
        obtain ⟨place, hfound⟩ := hstat rfl
        exact absurd (Tree.locate_eq_ok_iff.mp (Tree.stat_eq_ok_iff.mp hfound)).1 husable
    | error cause =>
        refine ⟨.error cause, [], ?_, ?_⟩
        · unfold writeText
          simp only [List.append_assoc] at hdirectory
          rw [runOn_bind, hdirectory, hensure, Volume.edit_nil]
        · rw [if_neg fun hboth => htakes hboth.1]
          exact ⟨⟨_, rfl⟩, fun _ => rfl⟩

end Disk

namespace Project

open Disk

variable {shell : Shell} {root : Route} {bytes : List UInt8} {text : Text.Draft}
  {volume : Volume} {tree : Tree}

/-! ## Documents -/

/-- The route of the directory of the index. -/
def docsRoute (root : Route) : Route := root ++ ["docs"]

/-- The route of a document. -/
def pageRoute (root : Route) : Page → Route
  | .overview => root ++ ["CLAUDE.md"]
  | .index => root ++ ["docs", "repo-index.md"]

theorem pageLocation_eq (root : Route) (page : Page) :
    pageLocation root page = .ofRoute (pageRoute root page) := by
  cases page <;> rfl

/-- A document can be written: its paths are not too long, no directory is in its place, and there
is a directory for it or room for one. -/
def IsOpen (tree : Tree) (root : Route) (page : Page) : Prop :=
  Tree.takesTemporary (pageRoute root page) = true ∧
    tree.find? (pageRoute root page) ≠ some .directory ∧
    (page = .index → tree.find? (docsRoute root) = none ∨
      tree.find? (docsRoute root) = some .directory)

/-- What is in the place of the directory of the index when a document is written. -/
def docsEntry (tree : Tree) (root : Route) (page : Page) : Option Entry :=
  if page = .index ∧ (Location.ofRoute (docsRoute root)).IsUsable ∧
      tree.find? (docsRoute root) = none then
    some .directory
  else tree.find? (docsRoute root)

/-- What writing a document changes. -/
structure PageEffect (before after : Tree) (root : Route) (page : Page) (bytes : List UInt8) :
    Prop where
  plain : after.IsPlain root
  frame : ∀ place, place ≠ pageRoute root page → place ≠ docsRoute root →
    after.find? place = before.find? place
  docs : after.find? (docsRoute root) = docsEntry before root page
  opened : IsOpen before root page →
    after.find? (pageRoute root page) = some (.file bytes .recently)
  closed : ¬ IsOpen before root page →
    after.find? (pageRoute root page) = before.find? (pageRoute root page)

theorem isProjectName_of_last {name : String} (hname : IsName name)
    (hlast : name.toList.getLast? ≠ some 'p') : Tree.IsProjectName name := by
  refine ⟨hname, ?_⟩
  rintro short rfl
  have hending : temporaryEnding.toList = ['.', 't', 'm'] ++ ['p'] := rfl
  rw [String.toList_append, hending, ← List.append_assoc, List.getLast?_concat] at hlast
  exact hlast rfl

theorem isProjectName_docs : Tree.IsProjectName "docs" :=
  isProjectName_of_last ⟨⟨by decide, by decide, by decide⟩, by decide, by decide, by decide⟩
    (by decide)

theorem isProjectName_overview : Tree.IsProjectName "CLAUDE.md" :=
  isProjectName_of_last ⟨⟨by decide, by decide, by decide⟩, by decide, by decide, by decide⟩
    (by decide)

theorem isProjectName_index : Tree.IsProjectName "repo-index.md" :=
  isProjectName_of_last ⟨⟨by decide, by decide, by decide⟩, by decide, by decide, by decide⟩
    (by decide)

theorem pageRoute_index (root : Route) :
    pageRoute root .index = docsRoute root ++ ["repo-index.md"] := by
  simp [pageRoute, docsRoute]

theorem pageRoute_ne_docsRoute (root : Route) (page : Page) :
    docsRoute root ≠ pageRoute root page := by
  cases page <;> simp [docsRoute, pageRoute]

theorem IsOpen.isUsable_docs (h : IsOpen tree root .index) :
    (Location.ofRoute (docsRoute root)).IsUsable := by
  have htakes := h.1
  rw [pageRoute_index] at htakes
  exact (isUsable_of_takesTemporary htakes).2

/-- The tree in which a document is written: nothing has changed, or `docs` was made. -/
structure OpensTo (tree : Tree) (root : Route) (page : Page) (opened : Tree) : Prop where
  frame : ∀ place, place ≠ docsRoute root → opened.find? place = tree.find? place
  docs : opened.find? (docsRoute root) = docsEntry tree root page

theorem opensTo_overview (tree : Tree) (root : Route) : OpensTo tree root .overview tree :=
  ⟨fun _ _ => rfl, (if_neg fun h => nomatch h.1).symm⟩

theorem OpensTo.docs_of_directory {opened : Tree} {page : Page}
    (h : OpensTo tree root page opened)
    (hdirectory : opened.find? (docsRoute root) = some .directory) :
    tree.find? (docsRoute root) = none ∨ tree.find? (docsRoute root) = some .directory := by
  have hentry := h.docs
  rw [hdirectory, docsEntry] at hentry
  split at hentry
  · next hmade => exact .inl hmade.2.2
  · exact .inr hentry.symm

theorem pageEffect_of_isWith {opened after : Tree} {page : Page} (hplain : after.IsPlain root)
    (hopen : IsOpen tree root page) (hopened : OpensTo tree root page opened)
    (hwith : opened.IsWith (pageRoute root page) (.file bytes .recently) after) :
    PageEffect tree after root page bytes where
  plain := hplain
  frame place hpage hdocs := by rw [hwith, if_neg hpage, hopened.frame place hdocs]
  docs := by rw [hwith, if_neg (pageRoute_ne_docsRoute root page), hopened.docs]
  opened _ := by rw [hwith, if_pos rfl]
  closed hclosed := absurd hopen hclosed

theorem pageEffect_of_isSame {opened after : Tree} {page : Page} (hplain : after.IsPlain root)
    (hclosed : ¬ IsOpen tree root page) (hopened : OpensTo tree root page opened)
    (hsame : opened.IsSame after) : PageEffect tree after root page bytes where
  plain := hplain
  frame place _ hdocs := by rw [hsame, hopened.frame place hdocs]
  docs := by rw [hsame, hopened.docs]
  opened hopen := absurd hopen hclosed
  closed _ := by rw [hsame, hopened.frame _ (pageRoute_ne_docsRoute root page).symm]

/-- The tree in which a document is written decides what writing it changes. -/
theorem pageEffect_of_write {opened after : Tree} {page : Page} {front : Route} {name : String}
    {result : Except DiskFailure Unit} (hopened : OpensTo tree root page opened)
    (hplain : opened.IsPlain root) (hroute : pageRoute root page = root ++ (front ++ [name]))
    (hparent : opened.find? (root ++ front) = some .directory) (hname : Tree.IsProjectName name)
    (hdocs : page = .index → tree.find? (docsRoute root) = none ∨
      tree.find? (docsRoute root) = some .directory)
    (hdistinct : (after.entries.map Prod.fst).Nodup)
    (heffect : if Tree.takesTemporary (root ++ (front ++ [name])) = true ∧
        opened.find? (root ++ (front ++ [name])) ≠ some .directory then
      result = .ok () ∧ opened.IsWith (root ++ (front ++ [name])) (.file bytes .recently) after
    else (∃ failure, result = .error failure) ∧ opened.IsSame after) :
    (result = .ok () ↔ IsOpen tree root page) ∧ PageEffect tree after root page bytes := by
  rw [← hroute] at heffect
  have hfind := hopened.frame _ (pageRoute_ne_docsRoute root page).symm
  split at heffect
  · next hfree =>
      obtain ⟨rfl, hwith⟩ := heffect
      have hopen : IsOpen tree root page :=
        ⟨hfree.1, fun hwrong => hfree.2 (hfind.trans hwrong), hdocs⟩
      refine ⟨iff_of_true rfl hopen, pageEffect_of_isWith ?_ hopen hopened hwith⟩
      rw [hroute] at hwith hfree
      exact hplain.of_isWith hwith hdistinct hparent hname (fun _ => Entry.noConfusion)
        (.inr hfree.2)
  · next hblocked =>
      obtain ⟨⟨failure, rfl⟩, hsame⟩ := heffect
      have hclosed : ¬ IsOpen tree root page := fun h =>
        hblocked ⟨h.1, fun hwrong => h.2.1 (hfind.symm.trans hwrong)⟩
      refine ⟨iff_of_false (fun h => nomatch h) hclosed, ?_⟩
      exact pageEffect_of_isSame (hplain.of_isSame hsame hdistinct) hclosed hopened hsame

/-- The overview takes its place or nothing changes. -/
theorem runOn_writeOverview_plain (hplain : volume.tree.IsPlain root) (shell : Shell)
    (hencode : text.encode = .ok bytes) :
    ∃ result edits, runOn (writeText shell (pageLocation root .overview) text) volume =
        (result, volume.edit edits) ∧
      (result = .ok () ↔ IsOpen volume.tree root .overview) ∧
      PageEffect volume.tree (volume.tree.applyAll edits) root .overview bytes := by
  have hparent : volume.tree.find? (root ++ []) = some .directory := by
    rw [List.append_nil, hplain.directory]
  obtain ⟨result, edits, hrun, heffect⟩ := runOn_writeText_plain hplain shell hparent
    isProjectName_overview.isName.plain hencode
  refine ⟨result, edits, hrun, ?_⟩
  exact pageEffect_of_write (opensTo_overview volume.tree root) hplain rfl hparent
    isProjectName_overview (fun h => nomatch h)
    (Tree.distinct_applyAll hplain.sound.distinct edits) heffect

/-- The directory `docs` is there or made when the index can be written. -/
theorem runOn_ensureDocs_plain (hplain : volume.tree.IsPlain root) (shell : Shell) :
    ∃ result made, runOn (ensureDirectories shell (.ofRoute (docsRoute root))) volume =
        (result, volume.edit made) ∧
      OpensTo volume.tree root .index (volume.tree.applyAll made) ∧
      (volume.tree.applyAll made).IsPlain root ∧
      match result with
      | .ok _ => (volume.tree.applyAll made).find? (docsRoute root) = some .directory
      | .error _ => ¬ IsOpen volume.tree root .index := by
  have hname := isProjectName_docs
  obtain ⟨result, made, hrun, hcases⟩ := runOn_ensureDirectories_of_real shell
    (.ofRoute (docsRoute root)) hplain.isReal (Tree.root_ofRoute_ne _) rfl hname.isName.plain
  refine ⟨result, made, hrun, ?_⟩
  rcases hcases with ⟨rfl, hthere, hstat⟩ | ⟨husable, hnone, rfl, hmade⟩
  · have hkept : docsEntry volume.tree root .index = volume.tree.find? (docsRoute root) :=
      if_neg fun h => hthere h.2.1 h.2.2
    refine ⟨⟨fun _ _ => rfl, hkept.symm⟩, hplain, ?_⟩
    cases result with
    | ok _ =>
        obtain ⟨place, hfound⟩ := hstat rfl
        exact hplain.directory_of_stat hname.isName.plain hfound
    | error failure =>
        intro hopen
        have husable := hopen.isUsable_docs
        rcases hopen.2.2 rfl with hnone | hdirectory
        · exact hthere husable hnone
        · rw [runOn_ensureDirectories_there hplain shell husable hdirectory] at hrun
          cases hrun
  · have hwith : volume.tree.IsWith (docsRoute root) .directory (volume.tree.applyAll made) := by
      intro place
      rw [hmade]
      exact Tree.find?_put _ (by simp) _ _
    have hparent : volume.tree.find? (root ++ []) = some .directory := by
      rw [List.append_nil, hplain.directory]
    have hput : docsEntry volume.tree root .index = some .directory :=
      if_pos ⟨rfl, husable, hnone⟩
    refine ⟨⟨fun place hplace => by rw [hwith, if_neg hplace], ?_⟩, ?_, ?_⟩
    · rw [hput, hwith, if_pos rfl]
    · exact hplain.of_isWith hwith (Tree.distinct_applyAll hplain.sound.distinct _) hparent hname
        (fun _ => Entry.noConfusion) (.inl rfl)
    · rw [hwith, if_pos rfl]

/-- The index takes its place, with `docs` made for it if need be, or it is not written. -/
theorem runOn_writeIndex_plain (hplain : volume.tree.IsPlain root) (shell : Shell)
    (hencode : text.encode = .ok bytes) :
    ∃ result edits, runOn (writeText shell (pageLocation root .index) text) volume =
        (result, volume.edit edits) ∧
      (result = .ok () ↔ IsOpen volume.tree root .index) ∧
      PageEffect volume.tree (volume.tree.applyAll edits) root .index bytes := by
  have hlocation : pageLocation root .index = .ofRoute (docsRoute root ++ ["repo-index.md"]) := by
    rw [pageLocation_eq, pageRoute_index]
  obtain ⟨ensured, made, hensure, hopened, hopenPlain, hcases⟩ :=
    runOn_ensureDocs_plain hplain shell
  have happend := appending?_ofRoute (docsRoute root) "repo-index.md" temporaryEnding
  unfold writeText
  rw [hlocation, parent_ofRoute, happend, runOn_bind, hensure]
  cases ensured with
  | error failure =>
      refine ⟨.error failure, made, rfl, iff_of_false (fun h => nomatch h) hcases, ?_⟩
      exact pageEffect_of_isSame hopenPlain hcases hopened fun _ => rfl
  | ok _ =>
      have hdirectory : (volume.tree.applyAll made).find? (docsRoute root) = some .directory :=
        hcases
      have hinside : (volume.edit made).tree.IsPlain root := hopenPlain
      obtain ⟨result, edits, hrun, heffect⟩ := runOn_writeVia_plain hinside shell hdirectory
        isProjectName_index.isName.plain hencode
      refine ⟨result, made ++ edits, ?_, ?_⟩
      · dsimp only
        simp only [docsRoute, List.append_assoc]
        rw [hrun, Volume.edit_edit]
      · rw [Tree.applyAll_append]
        exact pageEffect_of_write hopened hopenPlain rfl hdirectory isProjectName_index
          (fun _ => hopened.docs_of_directory hdirectory)
          (Tree.distinct_applyAll hopenPlain.sound.distinct edits) heffect

end Project

end SourceAtlas
