import SourceAtlas.Proofs.Tree.Growth

/-!
# Trees without links

Without links the names of a path alone tell which routes it goes through. The tree only decides
whether there are directories at these routes.
-/

namespace SourceAtlas.Tree

variable {tree before after : Tree} {start route : Route} {name : String} {names : List String}

/-- There is no link in the tree. -/
def IsLinkless (tree : Tree) : Prop := ∀ route target, tree.find? route ≠ some (.link target)

theorem isLinkless_of_entries (hdistinct : (tree.entries.map Prod.fst).Nodup)
    (hentries : ∀ item ∈ tree.entries, isLink item.2 = false) : tree.IsLinkless := by
  intro route target hfind
  by_cases hne : route = []
  · subst hne
    cases hfind
  · rw [find?_of_ne_nil _ hne, lookup_eq_some_iff hdistinct] at hfind
    cases hentries _ hfind

theorem IsLinkless.of_gains (h : before.IsLinkless) (hgains : before.GainsDirectories after) :
    after.IsLinkless :=
  fun route target hfind => h route target (hgains.old hfind Entry.noConfusion)

/-! ## Following names by their text -/

/-- Where a name leads from a directory. -/
def step (directory : Route) (name : String) : Route :=
  if name = "." then directory else if name = ".." then directory.dropLast else directory ++ [name]

/-- Where names lead from a directory. -/
def steps (start : Route) (names : List String) : Route := names.foldl step start

/-- The names can all be followed, as far as they alone tell. -/
def Fits (names : List String) : Prop :=
  ∀ name ∈ names, name = "." ∨ name = ".." ∨ IsPlainName name

/-- The route is that of one of the names, looked up from a directory. -/
def IsNamed (start : Route) (names : List String) (route : Route) : Prop :=
  ∃ front name, front ++ [name] <+: names ∧ IsPlainName name ∧ route = steps start front ++ [name]

@[simp] theorem step_dot (directory : Route) : step directory "." = directory := rfl

@[simp] theorem step_dots (directory : Route) : step directory ".." = directory.dropLast := rfl

theorem step_plain (directory : Route) (h : IsPlainName name) :
    step directory name = directory ++ [name] := by
  unfold step
  rw [if_neg h.1, if_neg h.2.1]

@[simp] theorem steps_nil (start : Route) : steps start [] = start := rfl

@[simp] theorem steps_cons (start : Route) (name : String) (names : List String) :
    steps start (name :: names) = steps (step start name) names := rfl

theorem steps_append (start : Route) (front back : List String) :
    steps start (front ++ back) = steps (steps start front) back := List.foldl_append ..

@[simp] theorem fits_cons : Fits (name :: names) ↔
    (name = "." ∨ name = ".." ∨ IsPlainName name) ∧ Fits names := List.forall_mem_cons

theorem Fits.of_prefix {front : List String} (h : Fits names) (hfront : front <+: names) :
    Fits front := fun name hname => h name (hfront.subset hname)

theorem not_isNamed_nil (start route : Route) : ¬ IsNamed start [] route := by
  rintro ⟨front, name, hfront, -⟩
  simp at hfront

theorem IsNamed.of_prefix {front : List String} (h : IsNamed start front route)
    (hfront : front <+: names) : IsNamed start names route := by
  obtain ⟨first, name, hfirst, hplain, hroute⟩ := h
  exact ⟨first, name, hfirst.trans hfront, hplain, hroute⟩

theorem isNamed_cons : IsNamed start (name :: names) route ↔
    (IsPlainName name ∧ route = start ++ [name]) ∨ IsNamed (step start name) names route := by
  constructor
  · rintro ⟨front, last, hfront, hplain, rfl⟩
    cases front with
    | nil =>
        rw [List.nil_append, List.cons_prefix_cons] at hfront
        exact .inl ⟨hfront.1 ▸ hplain, by rw [hfront.1, steps_nil]⟩
    | cons first rest =>
        rw [List.cons_append, List.cons_prefix_cons] at hfront
        obtain ⟨rfl, hrest⟩ := hfront
        exact .inr ⟨rest, last, hrest, hplain, rfl⟩
  · rintro (⟨hplain, rfl⟩ | ⟨front, last, hfront, hplain, rfl⟩)
    · exact ⟨[], name, by simp, hplain, rfl⟩
    · exact ⟨name :: front, last, by simpa using hfront, hplain, rfl⟩

/-! ## Reaching without links -/

/-- Names lead through directories exactly if there is one at each of their routes. -/
theorem IsLinkless.reach_eq_ok_iff (h : tree.IsLinkless) {links : Nat} {result : Nat × Route} :
    reach tree links start names = .ok result ↔
      Fits names ∧ (∀ route, IsNamed start names route → tree.find? route = some .directory) ∧
        result = (links, steps start names) := by
  induction names generalizing start with
  | nil =>
      rw [reach_nil, Except.ok.injEq, eq_comm]
      simp [Fits, not_isNamed_nil]
  | cons name rest ih =>
      simp only [fits_cons, isNamed_cons, steps_cons, or_imp, forall_and, forall_eq_apply_imp_iff,
        and_imp]
      rcases name_cases name with rfl | rfl | hplain | ⟨hdot, hdots, hlong⟩
      · have hname : ¬ IsPlainName "." := fun hplain => hplain.1 rfl
        simp [reach_dot, ih, hname]
      · have hname : ¬ IsPlainName ".." := fun hplain => hplain.2.1 rfl
        simp [reach_dots, ih, hname]
      · rw [reach_plain _ _ _ hplain, step_plain _ hplain]
        cases hfind : tree.find? (start ++ [name]) with
        | none => simp [hplain]
        | some entry =>
            cases entry with
            | file bytes modified => simp [hplain]
            | directory => simp [hplain, ih]
            | link target => exact absurd hfind (h _ target)
      · have hname : ¬ IsPlainName name := fun hplain => Nat.not_le.mpr hlong hplain.2.2
        simp [reach_long _ _ _ hdot hdots hlong, hdot, hdots, hname]

/-- Where nothing is in the way, names lead through directories or one of them is missing. -/
theorem reach_cases_of_open (links : Nat) (hfits : Fits names)
    (hopen : ∀ route, IsNamed start names route →
      tree.find? route = none ∨ tree.find? route = some .directory) :
    reach tree links start names = .ok (links, steps start names) ∨
      reach tree links start names = .error .noEntry := by
  induction names generalizing start with
  | nil => exact .inl (reach_nil ..)
  | cons name rest ih =>
      rw [fits_cons] at hfits
      have hrest := ih hfits.2 fun route hroute => hopen route (isNamed_cons.mpr (.inr hroute))
      rcases hfits.1 with rfl | rfl | hplain
      · rw [reach_dot]
        exact hrest
      · rw [reach_dots]
        exact hrest
      · rw [step_plain _ hplain] at hrest
        rw [reach_plain _ _ _ hplain, steps_cons, step_plain _ hplain]
        rcases hopen _ (isNamed_cons.mpr (.inl ⟨hplain, rfl⟩)) with hnone | hthere
        · rw [hnone]
          exact .inr rfl
        · rw [hthere]
          exact hrest

/-- The route of a location in a tree without links. -/
def routeOf (shell : Shell) (location : Location) : Route :=
  steps (startOf shell location) location.parts

/-- The route is that of a name in front of the last one of the location. -/
def IsPassed (shell : Shell) (location : Location) (route : Route) : Prop :=
  IsNamed (startOf shell location) location.parts.dropLast route

theorem IsLinkless.isPassed (h : tree.IsLinkless) {shell : Shell} {location : Location}
    (honWay : tree.IsOnWay shell location route) : IsPassed shell location route := by
  obtain ⟨later, front, name, left, parent, hlater, hfront, hreach, hplain, rfl⟩ := honWay
  obtain ⟨-, -, hresult⟩ := (h.of_gains hlater).reach_eq_ok_iff.mp hreach
  exact ⟨front, name, hfront, hplain, by rw [(Prod.mk.inj hresult).2]⟩

end SourceAtlas.Tree
