import SourceAtlas.Proofs.Disk.Atomicity
import SourceAtlas.Proofs.Tree.Linkless

/-!
# Writes in one order and the other

Without links a write succeeds or fails by what is at a few routes: the place of the file, that of
its temporary file, and the directories on the way. So two writes can be compared route by route.
They do not depend on their order exactly if neither needs the place of the temporary file of the
other one.
-/

namespace SourceAtlas

namespace Tree

variable {tree : Tree} {shell : Shell} {location : Location} {left : Nat} {parent : Route}
  {name : String}

/-- A directory whose parents are there can be made, unless it is there as well. -/
theorem Leads.make_or_stat (h : tree.Leads shell location left parent name)
    (hname : name = "." ∨ name = ".." ∨ IsPlainName name)
    (hopen : IsPlainName name → tree.find? (parent ++ [name]) = none ∨
      tree.find? (parent ++ [name]) = some .directory) :
    (∃ edits, tree.makeDirectory shell location = .ok edits) ∨
      ∃ place, tree.stat shell location = .ok (place, .directory) := by
  simp only [stat_eq_ok_iff, h.locate_eq_ok_iff]
  rcases hname with rfl | rfl | hplain
  · exact .inr ⟨_, by rw [walk_dot, walk_nil]⟩
  · exact .inr ⟨_, by rw [walk_dots, walk_nil]⟩
  · rcases hopen hplain with hnone | hthere
    · refine .inl ⟨[.put (parent ++ [name]) .directory], ?_⟩
      unfold makeDirectory
      rw [h.locate, walk_single_keep _ _ _ hplain, hnone]
      rfl
    · exact .inr ⟨_, by rw [walk_plain _ _ _ _ hplain, hthere, walk_nil]⟩

/-- A directory whose parents are missing cannot be made. -/
theorem makeDirectory_of_missing (husable : location.IsUsable)
    (hparts : location.parts = location.parts.dropLast ++ [name])
    (hreach : reach tree maxLinks (startOf shell location) location.parts.dropLast =
      .error .noEntry) :
    tree.makeDirectory shell location = .error (.refused .noEntry location.text) := by
  unfold makeDirectory
  rw [locate_of_usable husable, hparts, walk_append_single, hreach]
  rfl

/-- A file can be put where neither a directory nor a link is. -/
theorem Leads.filePlace?_of_ne (h : tree.Leads shell location left parent name)
    (hplain : IsPlainName name) (hlinkless : tree.IsLinkless)
    (hdirectory : tree.find? (parent ++ [name]) ≠ some .directory) (follow : Bool) :
    tree.filePlace? shell follow location = some (parent ++ [name]) := by
  unfold filePlace?
  rw [h.locate, walk_single_of_not_link hplain (hlinkless _)]
  cases hfind : tree.find? (parent ++ [name]) with
  | none => rfl
  | some entry =>
      cases entry with
      | file bytes modified => rfl
      | directory => exact absurd hfind hdirectory
      | link target => exact absurd hfind (hlinkless _ target)

theorem Leads.find?_ne_of_filePlace (h : tree.Leads shell location left parent name) {route : Route}
    (hplace : tree.filePlace? shell false location = some route) :
    tree.find? route ≠ some .directory := by
  intro hdirectory
  obtain rfl := h.eq_of_keep hplace
  rw [h.filePlace?_keep (h.isPlainName hplace), if_pos hdirectory] at hplace
  cases hplace

end Tree

namespace Disk

variable {shell : Shell} {location target : Location} {volume : Volume} {text : Text.Draft}

/-! ## Making directories where nothing is in the way -/

theorem ensureDirectory_of_ready
    (h : (∃ edits, volume.tree.makeDirectory shell location = .ok edits) ∨
      ∃ place, volume.tree.stat shell location = .ok (place, .directory)) :
    (runOn (ensureDirectory shell location) volume).1 = .ok () := by
  unfold ensureDirectory
  rw [runOn_tree_bind]
  rcases h with ⟨edits, hmake⟩ | ⟨place, hstat⟩
  · rw [hmake]
    rfl
  · obtain ⟨route, found, hkeep⟩ := Tree.locate_keep_of_here (Tree.stat_eq_ok_iff.mp hstat)
    rw [Tree.makeDirectory_of_here hkeep]
    simp [runOn_bind, runOn_view, Tree.isDirectory_of_stat hstat]

theorem runOn_ensureDirectories_of_missing {path : String} {goal : Option String}
    (hne : location.parts ≠ [])
    (h : volume.tree.makeDirectory shell location = .error (.refused .noEntry path goal)) :
    runOn (ensureDirectories shell location) volume =
      runOn (do ensureDirectories shell location.parent; ensureDirectory shell location) volume := by
  have hlength : location.parts.length = location.parent.parts.length + 1 := by
    have hpositive := List.length_pos_iff.mpr hne
    unfold Location.parent
    rw [List.length_dropLast]
    omega
  have hparent : location.parent ≠ location := by
    intro hsame
    rw [hsame] at hlength
    omega
  unfold ensureDirectories
  rw [hlength]
  conv_lhs => unfold ensureDirectoriesFuel
  rw [runOn_tree_bind, h]
  dsimp only
  rw [if_neg hparent]

/-- Once its parents are there, a directory with nothing in its way is there or can be made. -/
theorem make_or_stat_of_open {tree after : Tree} {name : String} (husable : location.IsUsable)
    (hfits : Tree.Fits location.parts) (hparts : location.parts = location.parts.dropLast ++ [name])
    (hopen : ∀ route, Tree.IsNamed (Tree.startOf shell location) location.parts route →
      tree.find? route = none ∨ tree.find? route = some .directory)
    (hgains : tree.GainsDirectories after)
    (hreach : Tree.reach after Tree.maxLinks (Tree.startOf shell location) location.parts.dropLast =
      .ok (Tree.maxLinks, Tree.steps (Tree.startOf shell location) location.parts.dropLast)) :
    (∃ edits, after.makeDirectory shell location = .ok edits) ∨
      ∃ place, after.stat shell location = .ok (place, .directory) := by
  refine Tree.Leads.make_or_stat ⟨husable, hparts, hreach⟩
    (hfits name (by rw [hparts]; simp)) fun hplain => ?_
  exact hgains.open_of_open
    (hopen _ ⟨location.parts.dropLast, name, hparts ▸ List.prefix_refl _, hplain, rfl⟩)

/-- Where nothing is in the way, the directories are made. -/
theorem ensureDirectories_of_open (shell : Shell) (location : Location) (volume : Volume)
    (husable : location.IsUsable) (hfits : Tree.Fits location.parts)
    (hopen : ∀ route, Tree.IsNamed (Tree.startOf shell location) location.parts route →
      volume.tree.find? route = none ∨ volume.tree.find? route = some .directory) :
    (runOn (ensureDirectories shell location) volume).1 = .ok () := by
  induction hlength : location.parts.length generalizing location volume with
  | zero =>
      have hnil := List.length_eq_zero_iff.mp hlength
      have hstat : volume.tree.stat shell location =
          .ok (Tree.startOf shell location, .directory) := by
        rw [Tree.stat_eq_ok_iff, Tree.locate_eq_ok_iff, hnil, Tree.walk_nil]
        exact ⟨husable, rfl⟩
      rw [runOn_ensureDirectories_of_stat hstat]
  | succ length ih =>
      have hne : location.parts ≠ [] := List.ne_nil_of_length_eq_add_one hlength
      obtain ⟨name, hparts⟩ : ∃ name, location.parts = location.parts.dropLast ++ [name] :=
        ⟨_, (List.dropLast_concat_getLast hne).symm⟩
      have habove : location.parent.parts <+: location.parts := List.dropLast_prefix _
      have hfront := hfits.of_prefix habove
      have hnamed : ∀ after : Tree, volume.tree.GainsDirectories after →
          ∀ route, Tree.IsNamed (Tree.startOf shell location) location.parts.dropLast route →
            after.find? route = none ∨ after.find? route = some .directory :=
        fun after hgains route hroute => hgains.open_of_open (hopen route (hroute.of_prefix habove))
      rcases Tree.reach_cases_of_open Tree.maxLinks hfront (hnamed _ (.refl _)) with
        hreach | hmissing
      · rcases make_or_stat_of_open husable hfits hparts hopen (.refl _) hreach with
          ⟨edits, hmake⟩ | ⟨place, hstat⟩
        · rw [runOn_ensureDirectories_of_ok hmake]
        · rw [runOn_ensureDirectories_of_stat hstat]
      · have hmake := Tree.makeDirectory_of_missing husable hparts hmissing
        have hparent := ih location.parent volume husable.parent hfront (hnamed _ (.refl _)) (by
          unfold Location.parent
          rw [List.length_dropLast, hlength]
          rfl)
        obtain ⟨result, edits, hrun, hmakes⟩ :=
          makesOn_ensureDirectories shell location.parent volume
        rw [hrun] at hparent
        obtain rfl : result = .ok () := hparent
        rw [runOn_ensureDirectories_of_missing hne hmake, runOn_bind, hrun]
        apply ensureDirectory_of_ready
        apply make_or_stat_of_open husable hfits hparts hopen hmakes.gains
        rcases Tree.reach_cases_of_open Tree.maxLinks hfront (hnamed _ hmakes.gains) with
          hreach | hwrong
        · exact hreach
        · obtain ⟨found, hfound⟩ := hmakes.reached rfl
          cases hfound.symm.trans hwrong

/-! ## What a write needs and what it leaves -/

/-- The route of the temporary file of a file. -/
def temporaryRoute (route : Route) : Route :=
  route.dropLast ++ [route.getLast?.getD "" ++ temporaryEnding]

@[simp] theorem temporaryRoute_concat (parent : Route) (name : String) :
    temporaryRoute (parent ++ [name]) = parent ++ [name ++ temporaryEnding] := by
  simp [temporaryRoute]

theorem temporaryRoute_concat_ne (parent : Route) (name : String) :
    temporaryRoute (parent ++ [name]) ≠ parent ++ [name] := by
  rw [temporaryRoute_concat]
  intro hsame
  exact Tree.ne_temporary name (List.singleton_inj.mp (List.append_cancel_left hsame)).symm

/-- What a write needs whatever is on the disk. -/
structure IsWritable (shell : Shell) (target : Location) (text : Text.Draft) (place : Route)
    (bytes : List UInt8) : Prop where
  encode : text.encode = .ok bytes
  fits : Tree.Fits target.parts.dropLast
  name : ∃ name, target.parts = target.parts.dropLast ++ [name] ∧
    Tree.IsPlainName name ∧ Tree.IsPlainName (name ++ temporaryEnding) ∧
    (Location.mk target.root (target.parts.dropLast ++ [name ++ temporaryEnding])).IsUsable ∧
    place = Tree.steps (Tree.startOf shell target) target.parts.dropLast ++ [name]
  apart : ¬ Tree.IsPassed shell target place ∧ ¬ Tree.IsPassed shell target (temporaryRoute place)

/-- Nothing on the disk is in the way of a write. -/
structure Admits (tree : Tree) (shell : Shell) (target : Location) (place : Route) : Prop where
  way : ∀ route, Tree.IsPassed shell target route →
    tree.find? route = none ∨ tree.find? route = some .directory
  atPlace : tree.find? place ≠ some .directory
  atTemporary : tree.find? (temporaryRoute place) ≠ some .directory

/-- What a write leaves at every route. -/
structure Leaves (before after : Tree) (shell : Shell) (target : Location) (place : Route)
    (bytes : List UInt8) : Prop where
  atPlace : after.find? place = some (.file bytes .recently)
  atTemporary : after.find? (temporaryRoute place) = none
  way : ∀ route, Tree.IsPassed shell target route → after.find? route = some .directory
  rest : ∀ route, route ≠ place → route ≠ temporaryRoute place →
    ¬ Tree.IsPassed shell target route → after.find? route = before.find? route

/-- Where both files have a place and the text has an encoding, the file is put there. -/
theorem Via.of_places {tree : Tree} {temporary : Location} {result : Except DiskFailure Unit}
    {edits : List Edit} {route goal : Route} {bytes : List UInt8}
    (hvia : Via tree shell temporary target text result edits) (hroute : route ≠ [])
    (hkeep : tree.filePlace? shell false temporary = some route)
    (hfollow : tree.filePlace? shell true temporary = some route)
    (hgoal : tree.filePlace? shell false target = some goal) (hencode : text.encode = .ok bytes) :
    result = .ok () ∧
      edits =
        [.put route (.file bytes .recently), .remove route, .put goal (.file bytes .recently)] := by
  cases hvia with
  | unreached hkept hnone => rw [hnone] at hfollow; cases hfollow
  | blocked hkept hnone => rw [hnone] at hfollow; cases hfollow
  | dropped hkept hfollowed hcause =>
      rcases hcause with ⟨-, hnone⟩ | ⟨⟨cause, herror⟩, -⟩
      · rw [hnone] at hgoal; cases hgoal
      · rw [herror] at hencode; cases hencode
  | moved hkept hfollowed hencoded hplaced hparent hne hentry =>
      obtain rfl := Option.some.inj (hkeep.symm.trans hkept)
      obtain rfl := Option.some.inj (hfollow.symm.trans hfollowed)
      obtain rfl := Option.some.inj (hgoal.symm.trans hplaced)
      obtain rfl := Except.ok.inj (hencode.symm.trans hencoded)
      rw [Tree.find?_put _ hroute, if_pos rfl] at hentry
      exact ⟨rfl, by rw [Option.some.inj hentry]⟩

section Linkless

variable {before made : Tree} {place : Route} {bytes : List UInt8}

theorem Makes.find?_passed (h : Makes shell target.parent before made (.ok ()))
    (hlinkless : before.IsLinkless) {route : Route} (hroute : Tree.IsPassed shell target route) :
    made.find? route = some .directory := by
  obtain ⟨found, hreach⟩ := h.reached rfl
  exact ((hlinkless.of_gains h.gains).reach_eq_ok_iff.mp hreach).2.1 route hroute

theorem Makes.find?_other {result : Except DiskFailure Unit}
    (h : Makes shell target.parent before made result)
    (hlinkless : before.IsLinkless) {route : Route} (hroute : ¬ Tree.IsPassed shell target route) :
    made.find? route = before.find? route := by
  apply Classical.byContradiction
  intro hne
  exact hroute (hlinkless.isPassed (h.isOnWay hne))

/-- Once its directories are there, the directories of a path are walked through. -/
theorem Makes.reach (h : Makes shell target.parent before made (.ok ()))
    (hlinkless : before.IsLinkless) (hfits : Tree.Fits target.parts.dropLast) :
    Tree.reach made Tree.maxLinks (Tree.startOf shell target) target.parts.dropLast =
      .ok (Tree.maxLinks, Tree.steps (Tree.startOf shell target) target.parts.dropLast) :=
  (hlinkless.of_gains h.gains).reach_eq_ok_iff.mpr
    ⟨hfits, fun _ => h.find?_passed hlinkless, rfl⟩

/-- No directory comes where none was, off the way to the file. -/
theorem Makes.not_directory {result : Except DiskFailure Unit}
    (h : Makes shell target.parent before made result) (hlinkless : before.IsLinkless)
    {route : Route} (hroute : ¬ Tree.IsPassed shell target route)
    (hfree : before.find? route ≠ some .directory) : made.find? route ≠ some .directory := by
  rwa [h.find?_other hlinkless hroute]

theorem find?_moved (tree : Tree) {route goal : Route} (hroute : route ≠ []) (hgoal : goal ≠ [])
    (file : Entry) (other : Route) :
    (tree.applyAll [.put route file, .remove route, .put goal file]).find? other =
      if other = goal then some file else if other = route then none else tree.find? other := by
  simp only [Tree.applyAll_cons, Tree.applyAll_nil]
  rw [Tree.find?_put _ hgoal, Tree.find?_remove _ hroute, Tree.find?_put _ hroute]
  by_cases hother : other = route
  · rw [if_pos hother, if_pos hother]
  · rw [if_neg hother, if_neg hother, if_neg hother]

/-- A file that is moved into place once its directories are there. -/
theorem Makes.leaves (h : Makes shell target.parent before made (.ok ()))
    (hlinkless : before.IsLinkless) (hwritable : IsWritable shell target text place bytes)
    {after : Tree} (hafter : ∀ route, after.find? route =
      if route = place then some (.file bytes .recently)
      else if route = temporaryRoute place then none else made.find? route) :
    Leaves before after shell target place bytes := by
  refine ⟨?_, ?_, fun route hroute => ?_, fun route hplace htemporary hroute => ?_⟩
  · rw [hafter, if_pos rfl]
  · obtain ⟨name, -, -, -, -, rfl⟩ := hwritable.name
    rw [hafter, if_neg (temporaryRoute_concat_ne _ _), if_pos rfl]
  · have hplace : route ≠ place := by
      rintro rfl
      exact hwritable.apart.1 hroute
    have htemporary : route ≠ temporaryRoute place := by
      rintro rfl
      exact hwritable.apart.2 hroute
    rw [hafter, if_neg hplace, if_neg htemporary, h.find?_passed hlinkless hroute]
  · rw [hafter, if_neg hplace, if_neg htemporary, h.find?_other hlinkless hroute]

/-- Where nothing is in the way, a write succeeds. -/
theorem wrote_of_admits (hlinkless : before.IsLinkless)
    (hwritable : IsWritable shell target text place bytes)
    (hadmits : Admits before shell target place) :
    (wrote shell target text before).1 = .ok () ∧
      Leaves before (wrote shell target text before).2 shell target place bytes := by
  obtain ⟨name, hparts, hplain, hlonger, husable, rfl⟩ := hwritable.name
  have happend : target.appending? temporaryEnding =
      some ⟨target.root, target.parts.dropLast ++ [name ++ temporaryEnding]⟩ := by
    unfold Location.appending?
    rw [hparts]
    simp
  have htarget := Location.IsUsable.of_appending? happend husable
  have hensure := ensureDirectories_of_open shell target.parent { tree := before } htarget.parent
    hwritable.fits hadmits.way
  obtain ⟨result, edits, hrun, hmakes⟩ :=
    makesOn_ensureDirectories shell target.parent { tree := before }
  rw [hrun] at hensure
  obtain rfl : result = .ok () := hensure
  have hmade := hlinkless.of_gains hmakes.gains
  have hreach := hmakes.reach hlinkless hwritable.fits
  have hplace := hmakes.not_directory hlinkless hwritable.apart.1 hadmits.atPlace
  have htemporary := hmakes.not_directory hlinkless hwritable.apart.2 hadmits.atTemporary
  rw [temporaryRoute_concat] at htemporary
  generalize Tree.steps (Tree.startOf shell target) target.parts.dropLast = parent at *
  have hends : (before.applyAll edits).Leads shell target Tree.maxLinks parent name :=
    ⟨htarget, hparts, hreach⟩
  have hleads : (before.applyAll edits).Leads shell
      ⟨target.root, target.parts.dropLast ++ [name ++ temporaryEnding]⟩ Tree.maxLinks parent
      (name ++ temporaryEnding) :=
    ⟨husable, by simp, by simp only [List.dropLast_concat]; exact hreach⟩
  have hgoal := hends.filePlace?_of_ne hplain hmade hplace false
  have hfollow := hleads.filePlace?_of_ne hlonger hmade htemporary true
  have hkeep := hleads.filePlace?_of_ne hlonger hmade htemporary false
  obtain ⟨last, more, hwrite, hvia⟩ := runOn_writeVia shell happend text
    (Volume.edit { tree := before } edits)
  have hwhole : runOn (writeText shell target text) { tree := before } =
      (last, (Volume.edit { tree := before } edits).edit more) :=
    (runOn_writeText_of_ensured hrun happend text).trans hwrite
  obtain ⟨rfl, rfl⟩ := hvia.of_places (by simp) hkeep hfollow hgoal hwritable.encode
  unfold wrote
  rw [hwhole]
  refine ⟨rfl, hmakes.leaves hlinkless hwritable fun route => ?_⟩
  rw [temporaryRoute_concat]
  exact find?_moved _ (by simp) (by simp) _ route

/-- What is written through a temporary file had nothing in its way. -/
theorem Via.admits {temporary : Location} {edits : List Edit}
    (hvia : Via made shell temporary target text (.ok ()) edits)
    (happend : target.appending? temporaryEnding = some temporary)
    (hlinkless : before.IsLinkless) (hmakes : Makes shell target.parent before made (.ok ())) :
    ∃ place bytes, IsWritable shell target text place bytes ∧ Admits before shell target place := by
  cases hvia with
  | @moved route place goal bytes entry hkeep hfollow hencode hgoal hparent hne hentry =>
      obtain ⟨left, parent, name, hleads⟩ := Tree.leads_of_place hkeep
      obtain ⟨short, rfl, htarget⟩ := hleads.of_temporary happend
      have hlonger := hleads.find?_ne_of_filePlace hkeep
      have hplace := htarget.find?_ne_of_filePlace hgoal
      obtain rfl := hleads.eq_of_keep hkeep
      obtain rfl := htarget.eq_of_keep hgoal
      obtain ⟨hfits, hpassed, hresult⟩ :=
        (hlinkless.of_gains hmakes.gains).reach_eq_ok_iff.mp htarget.reach
      obtain rfl : parent = Tree.steps (Tree.startOf shell target) target.parts.dropLast :=
        (Prod.mk.inj hresult).2
      have hlast : temporary =
          ⟨target.root, target.parts.dropLast ++ [short ++ temporaryEnding]⟩ := by
        obtain ⟨last, hparts, rfl⟩ := Location.appending?_eq_some happend
        have hsame := List.append_cancel_left (hparts.symm.trans htarget.parts)
        rw [List.singleton_inj.mp hsame]
      refine ⟨_, bytes, ⟨hencode, hfits, ⟨short, htarget.parts, htarget.isPlainName hgoal,
        hleads.isPlainName hkeep, hlast ▸ hleads.usable, rfl⟩, ?_, ?_⟩, ?_, ?_, ?_⟩
      · exact fun hwrong => hplace (hpassed _ hwrong)
      · rw [temporaryRoute_concat]
        exact fun hwrong => hlonger (hpassed _ hwrong)
      · intro route hroute
        cases hmakes.gains route with
        | inl hsame => exact .inr (hsame ▸ hpassed route hroute)
        | inr hnew => exact .inl hnew.1
      · exact fun hwrong => hplace (hmakes.gains.keeps hwrong)
      · rw [temporaryRoute_concat]
        exact fun hwrong => hlonger (hmakes.gains.keeps hwrong)

/-- A write that succeeds is one that nothing was in the way of. -/
theorem admits_of_wrote (hlinkless : before.IsLinkless)
    (h : (wrote shell target text before).1 = .ok ()) :
    ∃ place bytes, IsWritable shell target text place bytes ∧ Admits before shell target place := by
  obtain ⟨first, edits, hensure, hmakes⟩ :=
    makesOn_ensureDirectories shell target.parent { tree := before }
  unfold wrote at h
  cases first with
  | error failure =>
      unfold writeText at h
      rw [runOn_bind, hensure] at h
      cases h
  | ok _ =>
      cases happend : target.appending? temporaryEnding with
      | none =>
          unfold writeText at h
          rw [runOn_bind, hensure, happend] at h
          cases h
      | some temporary =>
          obtain ⟨result, more, hrun, hvia⟩ := runOn_writeVia shell happend text
            (Volume.edit { tree := before } edits)
          rw [runOn_writeText_of_ensured hensure happend, hrun] at h
          obtain rfl : result = .ok () := h
          exact hvia.admits happend hlinkless hmakes

theorem IsWritable.place_eq (h : IsWritable shell target text place bytes) :
    place = Tree.routeOf shell target := by
  obtain ⟨name, hparts, hplain, -, -, rfl⟩ := h.name
  conv_rhs => rw [Tree.routeOf, hparts, Tree.steps_append, Tree.steps_cons, Tree.step_plain _ hplain]
  rfl

theorem Leaves.isLinkless (h : Leaves before made shell target place bytes)
    (hlinkless : before.IsLinkless) : made.IsLinkless := by
  intro route path hfind
  by_cases hplace : route = place
  · rw [hplace, h.atPlace] at hfind
    cases hfind
  · by_cases htemporary : route = temporaryRoute place
    · rw [htemporary, h.atTemporary] at hfind
      cases hfind
    · by_cases hroute : Tree.IsPassed shell target route
      · rw [h.way route hroute] at hfind
        cases hfind
      · rw [h.rest route hplace htemporary hroute] at hfind
        exact hlinkless route path hfind

/-! ## Two writes -/

section Two

variable {p q : Location} {a b : Text.Draft} {x y : Route} {first second : List UInt8}
  {middle after other : Tree}

/-- The temporary file of the one write is neither the file of the other nor on the way to it. -/
def KeepsApart (shell : Shell) (p q : Location) : Prop :=
  temporaryRoute (Tree.routeOf shell p) ≠ Tree.routeOf shell q ∧
    ¬ Tree.IsPassed shell q (temporaryRoute (Tree.routeOf shell p))

/-- Both orders of two writes succeed and leave the same entries, with both texts in place. -/
structure Commute (shell : Shell) (tree : Tree) (p : Location) (a : Text.Draft) (q : Location)
    (b : Text.Draft) : Prop where
  inOrder : (wrote shell q b (wrote shell p a tree).2).1 = .ok ()
  inTurn : (wrote shell p a (wrote shell q b tree).2).1 = .ok ()
  same : ∀ route, (wrote shell q b (wrote shell p a tree).2).2.find? route =
    (wrote shell p a (wrote shell q b tree).2).2.find? route
  first : ∃ bytes, a.encode = .ok bytes ∧
    (wrote shell q b (wrote shell p a tree).2).2.find? (Tree.routeOf shell p) =
      some (.file bytes .recently)
  second : ∃ bytes, b.encode = .ok bytes ∧
    (wrote shell q b (wrote shell p a tree).2).2.find? (Tree.routeOf shell q) =
      some (.file bytes .recently)

/-- What two writes leave at every route. -/
structure LeavesBoth (before after : Tree) (shell : Shell) (p : Location) (first : List UInt8)
    (q : Location) (second : List UInt8) : Prop where
  atFirst : after.find? (Tree.routeOf shell p) = some (.file first .recently)
  atSecond : after.find? (Tree.routeOf shell q) = some (.file second .recently)
  atTemporary : ∀ route, route = temporaryRoute (Tree.routeOf shell p) ∨
    route = temporaryRoute (Tree.routeOf shell q) → after.find? route = none
  way : ∀ route, Tree.IsPassed shell p route ∨ Tree.IsPassed shell q route →
    after.find? route = some .directory
  rest : ∀ route, route ≠ Tree.routeOf shell p → route ≠ Tree.routeOf shell q →
    route ≠ temporaryRoute (Tree.routeOf shell p) → route ≠ temporaryRoute (Tree.routeOf shell q) →
    ¬ Tree.IsPassed shell p route → ¬ Tree.IsPassed shell q route →
    after.find? route = before.find? route

theorem LeavesBoth.find?_eq (h : LeavesBoth before after shell p first q second)
    (hother : LeavesBoth before other shell q second p first) (route : Route) :
    after.find? route = other.find? route := by
  by_cases hp : route = Tree.routeOf shell p
  · rw [hp, h.atFirst, hother.atSecond]
  by_cases hq : route = Tree.routeOf shell q
  · rw [hq, h.atSecond, hother.atFirst]
  by_cases htp : route = temporaryRoute (Tree.routeOf shell p)
  · rw [h.atTemporary route (.inl htp), hother.atTemporary route (.inr htp)]
  by_cases htq : route = temporaryRoute (Tree.routeOf shell q)
  · rw [h.atTemporary route (.inr htq), hother.atTemporary route (.inl htq)]
  by_cases hwp : Tree.IsPassed shell p route
  · rw [h.way route (.inl hwp), hother.way route (.inr hwp)]
  by_cases hwq : Tree.IsPassed shell q route
  · rw [h.way route (.inr hwq), hother.way route (.inl hwq)]
  rw [h.rest route hp hq htp htq hwp hwq, hother.rest route hq hp htq htp hwq hwp]

theorem temporaryRoute_inj (hp : IsWritable shell p a x first) (hq : IsWritable shell q b y second)
    (h : temporaryRoute x = temporaryRoute y) : x = y := by
  obtain ⟨name, -, -, -, -, rfl⟩ := hp.name
  obtain ⟨other, -, -, -, -, rfl⟩ := hq.name
  rw [temporaryRoute_concat, temporaryRoute_concat] at h
  obtain ⟨hparent, hlast⟩ := List.append_inj' h rfl
  rw [hparent, String.append_left_inj _ |>.mp (List.singleton_inj.mp hlast)]

/-- A write leaves nothing in the way of another one whose temporary file is no directory of it. -/
theorem Leaves.admits (h : Leaves before middle shell p x first)
    (hadmits : Admits before shell q y) (hxy : y ≠ x) (hxq : ¬ Tree.IsPassed shell q x)
    (hyp : ¬ Tree.IsPassed shell p y) (htemporary : ¬ Tree.IsPassed shell p (temporaryRoute y)) :
    Admits middle shell q y := by
  -- A route that the first write makes no directory of is left without one.
  have hleft : ∀ route, ¬ Tree.IsPassed shell p route → before.find? route ≠ some .directory →
      middle.find? route ≠ some .directory := by
    intro route hpassed hbefore
    by_cases hx : route = x
    · rw [hx, h.atPlace]
      simp
    · by_cases ht : route = temporaryRoute x
      · rw [ht, h.atTemporary]
        simp
      · rw [h.rest route hx ht hpassed]
        exact hbefore
  refine ⟨fun route hroute => ?_, hleft y hyp hadmits.atPlace,
    hleft _ htemporary hadmits.atTemporary⟩
  have hx : route ≠ x := by
    rintro rfl
    exact hxq hroute
  by_cases ht : route = temporaryRoute x
  · rw [ht]
    exact .inl h.atTemporary
  · by_cases hpassed : Tree.IsPassed shell p route
    · exact .inr (h.way route hpassed)
    · rw [h.rest route hx ht hpassed]
      exact hadmits.way route hroute

/-- What the first write leaves is left by the second one too. -/
theorem Leaves.both (h : Leaves before middle shell p (Tree.routeOf shell p) first)
    (hnext : Leaves middle after shell q (Tree.routeOf shell q) second)
    (hp : IsWritable shell p a (Tree.routeOf shell p) first)
    (hq : IsWritable shell q b (Tree.routeOf shell q) second)
    (hne : Tree.routeOf shell p ≠ Tree.routeOf shell q)
    (hpq : ¬ Tree.IsPassed shell q (Tree.routeOf shell p))
    (hqp : ¬ Tree.IsPassed shell p (Tree.routeOf shell q))
    (hapart : KeepsApart shell p q) (hother : KeepsApart shell q p) :
    LeavesBoth before after shell p first q second := by
  have htemporary : temporaryRoute (Tree.routeOf shell p) ≠ temporaryRoute (Tree.routeOf shell q) :=
    fun hsame => hne (temporaryRoute_inj hp hq hsame)
  refine ⟨?_, hnext.atPlace, ?_, ?_, ?_⟩
  · rw [hnext.rest _ hne hother.1.symm hpq, h.atPlace]
  · rintro route (rfl | rfl)
    · rw [hnext.rest _ hapart.1 htemporary hapart.2, h.atTemporary]
    · exact hnext.atTemporary
  · rintro route (hroute | hroute)
    · by_cases hpassed : Tree.IsPassed shell q route
      · exact hnext.way route hpassed
      · have hy : route ≠ Tree.routeOf shell q := by
          rintro rfl
          exact hqp hroute
        have ht : route ≠ temporaryRoute (Tree.routeOf shell q) := by
          rintro rfl
          exact hother.2 hroute
        rw [hnext.rest route hy ht hpassed, h.way route hroute]
    · exact hnext.way route hroute
  · intro route hx hy htx hty hpassed hreached
    rw [hnext.rest route hy hty hreached, h.rest route hx htx hpassed]

/-- When both orders succeed, the file of the one write is not the temporary file of the other, and
no directory of it is. -/
theorem Leaves.keepsApart (h : Leaves before middle shell q (Tree.routeOf shell q) second)
    (hlinkless : before.IsLinkless)
    (hok : (wrote shell p a middle).1 = .ok ())
    (hkept : (wrote shell p a middle).2.find? (Tree.routeOf shell q) ≠ none) :
    KeepsApart shell p q := by
  obtain ⟨place, bytes, hwritable, hadmits⟩ := admits_of_wrote (h.isLinkless hlinkless) hok
  obtain rfl := hwritable.place_eq
  obtain ⟨-, hleaves⟩ := wrote_of_admits (h.isLinkless hlinkless) hwritable hadmits
  refine ⟨fun hsame => ?_, fun hpassed => ?_⟩
  · rw [← hsame, hleaves.atTemporary] at hkept
    exact hkept rfl
  · exact hadmits.atTemporary (h.way _ hpassed)

/-- Two writes that are possible each on its own do not depend on their order exactly if neither
needs the place of the other one's temporary file. -/
theorem commute_iff_keepsApart (shell : Shell) (tree : Tree) (hlinkless : tree.IsLinkless)
    (hp : (wrote shell p a tree).1 = .ok ()) (hq : (wrote shell q b tree).1 = .ok ())
    (hne : Tree.routeOf shell p ≠ Tree.routeOf shell q)
    (hpq : ¬ Tree.IsPassed shell q (Tree.routeOf shell p))
    (hqp : ¬ Tree.IsPassed shell p (Tree.routeOf shell q)) :
    Commute shell tree p a q b ↔ KeepsApart shell p q ∧ KeepsApart shell q p := by
  obtain ⟨x, first, hpw, hpa⟩ := admits_of_wrote hlinkless hp
  obtain ⟨y, second, hqw, hqa⟩ := admits_of_wrote hlinkless hq
  obtain rfl := hpw.place_eq
  obtain rfl := hqw.place_eq
  obtain ⟨-, hafterP⟩ := wrote_of_admits hlinkless hpw hpa
  obtain ⟨-, hafterQ⟩ := wrote_of_admits hlinkless hqw hqa
  constructor
  · intro h
    have hfirst : (wrote shell p a (wrote shell q b tree).2).2.find? (Tree.routeOf shell q) ≠
        none := by
      obtain ⟨bytes, -, hsecond⟩ := h.second
      rw [← h.same, hsecond]
      simp
    have hsecond : (wrote shell q b (wrote shell p a tree).2).2.find? (Tree.routeOf shell p) ≠
        none := by
      obtain ⟨bytes, -, hfirst⟩ := h.first
      rw [hfirst]
      simp
    exact ⟨hafterQ.keepsApart hlinkless h.inTurn hfirst,
      hafterP.keepsApart hlinkless h.inOrder hsecond⟩
  · rintro ⟨hapart, hother⟩
    obtain ⟨hinOrder, hpThenQ⟩ := wrote_of_admits (hafterP.isLinkless hlinkless) hqw
      (hafterP.admits hqa hne.symm hpq hqp hother.2)
    obtain ⟨hinTurn, hqThenP⟩ := wrote_of_admits (hafterQ.isLinkless hlinkless) hpw
      (hafterQ.admits hpa hne hqp hpq hapart.2)
    have hboth := hafterP.both hpThenQ hpw hqw hne hpq hqp hapart hother
    have hturned := hafterQ.both hqThenP hqw hpw hne.symm hqp hpq hother hapart
    exact ⟨hinOrder, hinTurn, hboth.find?_eq hturned, ⟨first, hpw.encode, hboth.atFirst⟩,
      ⟨second, hqw.encode, hboth.atSecond⟩⟩

/-- Files beside each other can be written in either order, unless the one is called as the
temporary file of the other. -/
theorem commute_beside :
    Commute ⟨[], []⟩ {} ⟨.single, ["a"]⟩ "x" ⟨.single, ["b"]⟩ "y" ∧
    ¬ Commute ⟨[], []⟩ {} ⟨.single, ["a"]⟩ "x" ⟨.single, ["a.tmp"]⟩ "y" := by
  have hlinkless : ({} : Tree).IsLinkless := Tree.isLinkless_of_entries (by decide) (by decide)
  have hfirst : ∀ (name : String) (route : Route),
      ¬ Tree.IsPassed ⟨[], []⟩ ⟨.single, [name]⟩ route :=
    fun name route => Tree.not_isNamed_nil [] route
  constructor
  · apply (commute_iff_keepsApart ⟨[], []⟩ {} hlinkless (by decide +kernel) (by decide +kernel)
      (by decide) (hfirst _ _) (hfirst _ _)).mpr
    exact ⟨⟨by decide, hfirst _ _⟩, ⟨by decide, hfirst _ _⟩⟩
  · intro hcommute
    have hapart := (commute_iff_keepsApart ⟨[], []⟩ {} hlinkless (by decide +kernel)
      (by decide +kernel) (by decide) (hfirst _ _) (hfirst _ _)).mp hcommute
    exact hapart.1.1 (by decide)

end Two

end Linkless

end Disk

end SourceAtlas
