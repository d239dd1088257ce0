import SourceAtlas.Proofs.Tree.Plain

/-!
# Trees that gain directories

A write makes the directories that are missing on its path. Which ones there are in the end does not
matter for where the path leads: it has at most one place, found in any tree that has all of them.
-/

namespace SourceAtlas.Tree

/-- What is there stays, and what comes is a directory. -/
def GainsDirectories (before after : Tree) : Prop :=
  ∀ route, after.find? route = before.find? route ∨
    (before.find? route = none ∧ after.find? route = some .directory)

namespace GainsDirectories

variable {before middle after other : Tree} {route : Route} {entry : Entry}

theorem refl (tree : Tree) : tree.GainsDirectories tree := fun _ => .inl rfl

theorem trans (h : before.GainsDirectories middle) (hnext : middle.GainsDirectories after) :
    before.GainsDirectories after := by
  intro route
  cases hnext route with
  | inl hsame => rw [hsame]; exact h route
  | inr hnew =>
      cases h route with
      | inl hsame => exact .inr ⟨hsame ▸ hnew.1, hnew.2⟩
      | inr hold =>
          rw [hold.2] at hnew
          cases hnew.1

theorem keeps (h : before.GainsDirectories after) (hfind : before.find? route = some entry) :
    after.find? route = some entry := by
  cases h route with
  | inl hsame => rw [hsame, hfind]
  | inr hnew =>
      rw [hfind] at hnew
      cases hnew.1

theorem keepsPaths (h : before.GainsDirectories after) : before.KeepsPaths after :=
  fun _ _ hfind _ => h.keeps hfind

theorem open_of_open (h : before.GainsDirectories after)
    (hopen : before.find? route = none ∨ before.find? route = some .directory) :
    after.find? route = none ∨ after.find? route = some .directory := by
  cases h route with
  | inl hsame => rw [hsame]; exact hopen
  | inr hnew => exact .inr hnew.2

/-- What is no directory has been there before. -/
theorem old (h : before.GainsDirectories after) (hfind : after.find? route = some entry)
    (hentry : entry ≠ .directory) : before.find? route = some entry := by
  cases h route with
  | inl hsame => rw [← hsame, hfind]
  | inr hnew =>
      rw [hfind] at hnew
      exact absurd (Option.some.inj hnew.2) hentry

/-- Two trees that have gained directories have no different entries at one route. -/
theorem agree (hafter : before.GainsDirectories after) (hother : before.GainsDirectories other)
    {found : Entry} (hfind : after.find? route = some entry)
    (hfound : other.find? route = some found) : entry = found := by
  by_cases hentry : entry = .directory
  · by_cases hsecond : found = .directory
    · rw [hentry, hsecond]
    · have hthere := hafter.keeps (hother.old hfound hsecond)
      exact Option.some.inj (hfind.symm.trans hthere)
  · have hthere := hother.keeps (hafter.old hfind hentry)
    exact Option.some.inj (hthere.symm.trans hfound)

theorem put_directory {directory : Route} {name : String}
    (h : before.find? (directory ++ [name]) = none) :
    before.GainsDirectories (before.apply (.put (directory ++ [name]) .directory)) := by
  intro route
  rw [find?_put before (by simp)]
  by_cases hroute : route = directory ++ [name]
  · rw [if_pos hroute]
    exact .inr ⟨hroute ▸ h, rfl⟩
  · rw [if_neg hroute]
    exact .inl rfl

/-- Names lead to one directory only, whatever else has been made. -/
theorem reach_unique (hafter : before.GainsDirectories after)
    (hother : before.GainsDirectories other) {links : Nat} {directory : Route}
    {names : List String} {first second : Nat × Route}
    (hfirst : reach after links directory names = .ok first)
    (hsecond : reach other links directory names = .ok second) : first = second := by
  have hpasses := passes_iff.mpr hfirst
  clear hfirst
  induction hpasses with
  | nil links directory =>
      rw [reach_nil] at hsecond
      exact Except.ok.inj hsecond
  | dot _ ih =>
      rw [reach_dot] at hsecond
      exact ih hsecond
  | dots _ ih =>
      rw [reach_dots] at hsecond
      exact ih hsecond
  | @directory links directory name rest first hplain hfind _ ih =>
      rw [reach_plain _ _ _ hplain] at hsecond
      cases hfound : other.find? (directory ++ [name]) with
      | none => rw [hfound] at hsecond; cases hsecond
      | some found =>
          obtain rfl := hafter.agree hother hfind hfound
          rw [hfound] at hsecond
          exact ih hsecond
  | link hplain hfind _ ih =>
      have hfound := hother.keeps (hafter.old hfind Entry.noConfusion)
      rw [reach_plain _ _ _ hplain, hfound] at hsecond
      exact ih hsecond

/-- Below a missing directory there is nothing, so names lead deeper into what is made of it. -/
theorem isPrefix_of_reach (h : before.GainsDirectories after) (hsound : before.IsSound)
    {links left : Nat} {directory place : Route} {names : List String}
    (hmissing : before.find? directory = none) (hdots : ".." ∉ names)
    (hreach : reach after links directory names = .ok (left, place)) : directory <+: place := by
  induction names generalizing directory with
  | nil =>
      rw [reach_nil] at hreach
      cases hreach
      exact List.prefix_refl _
  | cons name rest ih =>
      rw [List.mem_cons, not_or] at hdots
      rcases name_cases name with rfl | rfl | hplain | ⟨hdot, hdots, hlong⟩
      · rw [reach_dot] at hreach
        exact ih hmissing hdots.2 hreach
      · exact absurd rfl hdots.1
      · have hbelow : before.find? (directory ++ [name]) = none := by
          rw [Option.eq_none_iff_forall_ne_some]
          intro entry hentry
          have hparent := hsound.parents _ _ _ hentry
          rw [hmissing] at hparent
          cases hparent
        rw [reach_plain _ _ _ hplain] at hreach
        cases h (directory ++ [name]) with
        | inl hsame => rw [hsame, hbelow] at hreach; cases hreach
        | inr hnew =>
            rw [hnew.2] at hreach
            exact (List.prefix_append _ _).trans (ih hbelow hdots.2 hreach)
      · rw [reach_long _ _ _ hdot hdots hlong] at hreach
        cases hreach

end GainsDirectories

/-! ## The way of a path and its place -/

/-- The route is that of a name in front of the last one of the location, looked up once the
directories in front of it are there. -/
def IsOnWay (tree : Tree) (shell : Shell) (location : Location) (route : Route) : Prop :=
  ∃ later front name left parent, tree.GainsDirectories later ∧
    front ++ [name] <+: location.parts.dropLast ∧
    reach later maxLinks (startOf shell location) front = .ok (left, parent) ∧
    IsPlainName name ∧ route = parent ++ [name]

/-- The route is that of the last name of the location, looked up once the directories in front of it
are there. A link at the end is not followed. -/
def IsPlaceOf (tree : Tree) (shell : Shell) (location : Location) (route : Route) : Prop :=
  ∃ later left parent name, tree.GainsDirectories later ∧
    later.Leads shell location left parent name ∧ IsPlainName name ∧ route = parent ++ [name]

variable {before after : Tree} {shell : Shell} {location : Location}

theorem IsPlaceOf.unique {route other : Route} (h : before.IsPlaceOf shell location route)
    (hother : before.IsPlaceOf shell location other) : route = other := by
  obtain ⟨later, left, parent, name, hlater, hleads, -, rfl⟩ := h
  obtain ⟨last, rest, directory, short, hlast, hends, -, rfl⟩ := hother
  have hreach := hlater.reach_unique hlast hleads.reach hends.reach
  have hparent : parent = directory := congrArg Prod.snd hreach
  have hname : [name] = [short] := List.append_cancel_left (hleads.parts.symm.trans hends.parts)
  rw [hparent, hname]

end SourceAtlas.Tree
