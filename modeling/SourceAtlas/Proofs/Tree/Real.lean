import SourceAtlas.Proofs.Tree.Place

/-!
# Real routes

A route is real when every name on it is the name of a directory. Following such a route needs no
link, so it ends at the route itself; and whatever a path from the root leads to is real.
-/

namespace SourceAtlas.Tree

/-- Every name on the route is the name of a directory. -/
def IsReal (tree : Tree) (route : Route) : Prop :=
  ∀ front name, front ++ [name] <+: route →
    IsPlainName name ∧ tree.find? (front ++ [name]) = some .directory

/-- Directories that are there before are there afterwards. -/
def KeepsDirectories (before after : Tree) : Prop :=
  ∀ route, before.find? route = some .directory → after.find? route = some .directory

variable {tree before after : Tree} {route : Route} {name : String}

theorem isReal_nil (tree : Tree) : tree.IsReal [] := by
  intro front name h
  simp at h

theorem IsReal.of_isPrefix {longer : Route} (h : tree.IsReal longer) (hfront : route <+: longer) :
    tree.IsReal route := fun front name hname => h front name (hname.trans hfront)

theorem IsReal.concat (h : tree.IsReal route) (hplain : IsPlainName name)
    (hfind : tree.find? (route ++ [name]) = some .directory) : tree.IsReal (route ++ [name]) := by
  intro front last hfront
  rcases List.prefix_concat_iff.mp hfront with hsame | hshorter
  · rw [hsame]
    have hlast := congrArg List.getLast? hsame
    simp only [List.getLast?_concat, Option.some.injEq] at hlast
    exact ⟨hlast ▸ hplain, hfind⟩
  · exact h front last hshorter

/-- A real route leads to itself, with all links left. -/
theorem IsReal.reach (base : Route) {names : List String} (h : tree.IsReal (base ++ names))
    (links : Nat) : Tree.reach tree links base names = .ok (links, base ++ names) := by
  induction names generalizing base with
  | nil => rw [reach_nil, List.append_nil]
  | cons name rest ih =>
      have hsplit : base ++ name :: rest = (base ++ [name]) ++ rest := by simp
      rw [hsplit] at h ⊢
      obtain ⟨hplain, hfind⟩ := h base name (List.prefix_append _ _)
      rw [reach_plain _ _ _ hplain, hfind]
      exact ih _ h

/-- A real route leads to itself, whatever names come behind it. -/
theorem IsReal.walk (base : Route) {names : List String} (h : tree.IsReal (base ++ names))
    (follow : Bool) (links : Nat) (rest : List String) :
    Tree.walk tree follow links base (names ++ rest) =
      Tree.walk tree follow links (base ++ names) rest := by
  induction names generalizing base with
  | nil => rw [List.nil_append, List.append_nil]
  | cons name names ih =>
      have hsplit : base ++ name :: names = (base ++ [name]) ++ names := by simp
      rw [hsplit] at h ⊢
      obtain ⟨hplain, hfind⟩ := h base name (List.prefix_append _ _)
      rw [List.cons_append, walk_plain _ _ _ _ hplain, hfind]
      exact ih _ h

/-- Names lead from a real route to a real route. -/
theorem isReal_of_reach {links left : Nat} {directory place : Route} {names : List String}
    (hreal : tree.IsReal directory)
    (h : Tree.reach tree links directory names = .ok (left, place)) : tree.IsReal place := by
  have hpasses := passes_iff.mpr h
  clear h
  generalize hresult : (left, place) = result at hpasses
  induction hpasses with
  | nil links directory =>
      cases hresult
      exact hreal
  | dot _ ih => exact ih hreal hresult
  | dots _ ih => exact ih (hreal.of_isPrefix (List.dropLast_prefix _)) hresult
  | directory hplain hfind _ ih => exact ih (hreal.concat hplain hfind) hresult
  | link hplain hfind _ ih =>
      refine ih ?_ hresult
      unfold linkStart
      split
      · exact isReal_nil tree
      · exact hreal

theorem root_ofRoute_ne (route : Route) : (Location.ofRoute route).root ≠ .relative := nofun

theorem startOf_of_ne_relative {location : Location} (h : location.root ≠ .relative)
    (shell : Shell) : startOf shell location = [] := by
  unfold startOf
  split
  · next hroot => exact absurd hroot h
  · rfl

/-- A path from the root leads to a directory at its own names exactly if they are a real route. -/
theorem stat_self_iff {shell : Shell} {location : Location} (hroot : location.root ≠ .relative) :
    tree.stat shell location = .ok (location.parts, .directory) ↔
      location.IsUsable ∧ tree.IsReal location.parts := by
  rw [stat_eq_ok_iff, locate_eq_ok_iff, walk_directory_iff, startOf_of_ne_relative hroot]
  refine and_congr_right fun _ => ⟨?_, fun hreal => ?_⟩
  · rintro ⟨left, hreach⟩
    exact isReal_of_reach (isReal_nil tree) hreach
  · exact ⟨maxLinks, IsReal.reach [] hreal maxLinks⟩

/-- A directory is found at its own route exactly if the route is real. -/
theorem stat_ofRoute_iff {shell : Shell} :
    tree.stat shell (.ofRoute route) = .ok (route, .directory) ↔
      (Location.ofRoute route).IsUsable ∧ tree.IsReal route :=
  stat_self_iff (root_ofRoute_ne route)

/-- What is next in a real directory is looked up there. -/
theorem IsReal.leads (h : tree.IsReal route) (shell : Shell) {location : Location}
    (husable : location.IsUsable) (hroot : location.root ≠ .relative)
    (hparts : location.parts = route ++ [name]) :
    tree.Leads shell location maxLinks route name := by
  refine ⟨husable, by rw [hparts, List.dropLast_concat], ?_⟩
  rw [hparts, List.dropLast_concat, startOf_of_ne_relative hroot]
  exact IsReal.reach [] h maxLinks

/-- Edits of other entries keep the directories. -/
theorem keepsDirectories_applyAll {edits : List Edit}
    (h : ∀ edit ∈ edits, tree.find? edit.route ≠ some .directory) :
    tree.KeepsDirectories (tree.applyAll edits) := by
  intro route hroute
  rw [find?_applyAll_of_forall_ne tree fun edit hedit hsame => h edit hedit (hsame ▸ hroute), hroute]

/-! ## Real paths -/

section Links

variable {shell : Shell} (h : before.linkAt? shell = after.linkAt? shell)

include h

theorem realWith_congr (follow : Met → Location → List String → Except Halt (Location × Met))
    (met : Met) (here : Location) (names : List String) :
    realWith before shell follow met here names = realWith after shell follow met here names := by
  induction names generalizing met here with
  | nil => rfl
  | cons name rest ih => simp only [realWith, h, ih]

theorem real_congr (links : Nat) : real before shell links = real after shell links := by
  induction links with
  | zero =>
      funext met here names
      exact realWith_congr h ..
  | succ links ih =>
      funext met here names
      rw [real, real, ih]
      exact realWith_congr h ..

/-- A tree decides by its links alone what the real path of a path is. -/
theorem realPath_congr (location : Location) :
    before.realPath shell location = after.realPath shell location := by
  unfold realPath
  rw [real_congr h]

end Links

section Failures

variable {shell : Shell} {location : Location}

/-- Reading a link fails for a path that is no path only. -/
theorem linkAt?_error {failure : DiskFailure} (h : tree.linkAt? shell location = .error failure) :
    failure = .nulByte := by
  unfold linkAt? at h
  split at h
  · cases h
  · cases h
  · cases h
  · next cause hother hlocate =>
      cases h
      unfold locate at hlocate
      split at hlocate
      · cases hlocate
        rfl
      · split at hlocate
        · cases hlocate
          exact absurd rfl (hother _ _ _)
        · cases hwalk : walk tree false maxLinks (startOf shell location) location.parts with
          | ok spot => rw [hwalk] at hlocate; cases hlocate
          | error errno =>
              rw [hwalk] at hlocate
              cases hlocate
              exact absurd rfl (hother _ _ _)

/-- Why resolving links halts, apart from a circle. -/
def IsHaltOf (cause : DiskFailure) : Prop := cause = .nulByte ∨ cause = .tooDeep

theorem Halt.before_eq_failed {halt : Halt} {names : List String} {cause : DiskFailure}
    (h : halt.before names = .failed cause) : halt = .failed cause := by
  cases halt with
  | circle path => cases h
  | failed other => exact h

theorem realWith_failed
    {follow : Met → Location → List String → Except Halt (Location × Met)}
    (hfollow : ∀ {met start names cause}, follow met start names = .error (.failed cause) →
      IsHaltOf cause)
    {met : Met} {here : Location} {names : List String} {cause : DiskFailure}
    (h : realWith tree shell follow met here names = .error (.failed cause)) : IsHaltOf cause := by
  induction names generalizing met here with
  | nil => cases h
  | cons name rest ih =>
      rw [realWith] at h
      split at h
      · exact ih h
      · split at h
        · exact ih h
        · dsimp only at h
          split at h
          · next hlink =>
              cases h
              exact .inl (linkAt?_error hlink)
          · exact ih h
          · split at h
            · exact ih h
            · cases h
            · split at h
              · next halt hhalt =>
                  rw [Except.error.injEq] at h
                  exact hfollow (hhalt.trans (congrArg _ (Halt.before_eq_failed h)))
              · exact ih h

theorem real_failed {links : Nat} {met : Met} {here : Location} {names : List String}
    {cause : DiskFailure} (h : real tree shell links met here names = .error (.failed cause)) :
    IsHaltOf cause := by
  induction links generalizing met here names cause with
  | zero =>
      refine realWith_failed (fun hhalt => ?_) h
      cases hhalt
      exact .inr rfl
  | succ links ih => exact realWith_failed (fun hhalt => ih hhalt) h

theorem resolve_error {failure : DiskFailure}
    (h : tree.resolve shell location = .error failure) :
    failure = .nulByte ∨ (∃ path, failure = .linkLoop path) ∨ failure = .tooDeep := by
  unfold resolve at h
  rcases Outcome.bind_eq_error_iff.mp h with hreal | ⟨path, -, hstat⟩
  · unfold realPath at hreal
    split at hreal
    · cases hreal
    · cases hreal
    · next cause hhalt =>
        cases hreal
        rcases real_failed hhalt with rfl | rfl
        · exact .inl rfl
        · exact .inr (.inr rfl)
  · split at hstat
    · cases hstat
      exact .inr (.inl ⟨_, rfl⟩)
    · cases hstat
      exact .inl rfl
    · cases hstat

end Failures

end SourceAtlas.Tree
