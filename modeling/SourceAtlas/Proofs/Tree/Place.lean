import SourceAtlas.Proofs.Outcome
import SourceAtlas.Proofs.Tree.Walk

/-!
# The place that a location leads to

A location that the system takes leads to a directory, in which its last name is looked up. What is
looked up there is all that a change of files can do to where the location leads. Taking an entry away
changes nothing for a path that does not come to it.
-/

namespace SourceAtlas

/-- The route of a spot, whether something is there or not. -/
def Spot.route : Spot → Route
  | here route _ => route
  | vacant directory name => directory ++ [name]

/-- The system takes the location: it has no NUL and is not too long. -/
def Location.IsUsable (location : Location) : Prop :=
  location.hasNul = false ∧ Tree.byteLength location.text < Tree.maxPathBytes

instance (location : Location) : Decidable location.IsUsable :=
  inferInstanceAs (Decidable (_ ∧ _))

namespace Tree

variable {tree : Tree} {shell : Shell} {location : Location} {follow : Bool}

theorem locate_of_usable (h : location.IsUsable) :
    tree.locate shell follow location =
      (walk tree follow maxLinks (startOf shell location) location.parts).mapError
        fun errno => .refused errno location.text := by
  unfold locate
  rw [if_neg (by simp [h.1]), if_neg (Nat.not_le.mpr h.2)]

/-- A location that the system does not take is refused whatever is on the disk. -/
theorem locate_of_not_usable (shell : Shell) (h : ¬ location.IsUsable) :
    ∃ failure, (∀ path goal, failure ≠ .refused .noEntry path goal) ∧
      ∀ (tree : Tree) follow, tree.locate shell follow location = .error failure := by
  unfold locate
  by_cases hnul : location.hasNul = true
  · exact ⟨.nulByte, fun _ _ => DiskFailure.noConfusion, fun _ _ => if_pos hnul⟩
  · have hlong : maxPathBytes ≤ byteLength location.text := by
      apply Nat.not_lt.mp
      exact fun hlt => h ⟨by simpa using hnul, hlt⟩
    exact ⟨.refused .nameTooLong location.text, by simp,
      fun _ _ => by rw [if_neg hnul, if_pos hlong]⟩

theorem locate_eq_ok_iff {spot : Spot} :
    tree.locate shell follow location = .ok spot ↔
      location.IsUsable ∧
        walk tree follow maxLinks (startOf shell location) location.parts = .ok spot := by
  by_cases h : location.IsUsable
  · rw [locate_of_usable h, Outcome.mapError_eq_ok_iff]
    exact (and_iff_right h).symm
  · obtain ⟨failure, -, hfail⟩ := locate_of_not_usable shell h
    simp [hfail, h]

theorem stat_eq_ok_iff {route : Route} {entry : Entry} :
    tree.stat shell location = .ok (route, entry) ↔
      tree.locate shell true location = .ok (.here route entry) := by
  unfold stat
  cases h : tree.locate shell true location with
  | error failure => simp [bind, Except.bind]
  | ok spot => cases spot <;> simp [bind, Except.bind]

/-- Only a location with a NUL is no path for the system. -/
theorem stat_ne_nulByte (h : location.hasNul = false) : tree.stat shell location ≠ .error .nulByte := by
  unfold stat locate
  rw [if_neg (by simp [h])]
  by_cases hlong : maxPathBytes ≤ byteLength location.text
  · rw [if_pos hlong]
    exact fun hwrong => nomatch hwrong
  · rw [if_neg hlong]
    rcases walk tree true maxLinks (startOf shell location) location.parts with errno | spot
    · exact fun hwrong => nomatch hwrong
    · cases spot <;> exact fun hwrong => nomatch hwrong

/-- Where a walk ends at no link, none is read. -/
theorem linkAt?_of_walk_ne_link
    (h : ∀ place target, walk tree false maxLinks (startOf shell location) location.parts ≠
      .ok (.here place (.link target))) :
    tree.linkAt? shell location = if location.hasNul then .error .nulByte else .ok none := by
  unfold linkAt? locate
  by_cases hnul : location.hasNul = true
  · rw [if_pos hnul, if_pos hnul]
  · rw [if_neg hnul, if_neg hnul]
    by_cases hlong : maxPathBytes ≤ byteLength location.text
    · rw [if_pos hlong]
    · rw [if_neg hlong]
      cases hwalk : walk tree false maxLinks (startOf shell location) location.parts with
      | error errno => rfl
      | ok spot =>
          cases spot with
          | vacant parent name => rfl
          | here place entry =>
              cases entry with
              | link target => exact absurd hwalk (h place target)
              | file bytes modified => rfl
              | directory => rfl

/-- The directory in which the last name of a location is looked up, and the number of links that
may still be followed there. -/
structure Leads (tree : Tree) (shell : Shell) (location : Location) (left : Nat) (parent : Route)
    (name : String) : Prop where
  usable : location.IsUsable
  parts : location.parts = location.parts.dropLast ++ [name]
  reach : reach tree maxLinks (startOf shell location) location.parts.dropLast = .ok (left, parent)

theorem parts_eq_of_getLast? {name : String} (h : location.parts.getLast? = some name) :
    location.parts = location.parts.dropLast ++ [name] := by
  have hne : location.parts ≠ [] := by
    intro hnil
    simp [hnil] at h
  have hlast : location.parts.getLast hne = name := by
    rw [List.getLast?_eq_some_getLast hne] at h
    exact Option.some.inj h
  rw [← hlast, List.dropLast_concat_getLast]

namespace Leads

variable {left : Nat} {parent : Route} {name : String}

theorem locate (h : tree.Leads shell location left parent name) (follow : Bool) :
    tree.locate shell follow location =
      (walk tree follow left parent [name]).mapError fun errno => .refused errno location.text := by
  rw [locate_of_usable h.usable, h.parts, walk_append_single, h.reach]

theorem locate_eq_ok_iff {spot : Spot} (h : tree.Leads shell location left parent name) :
    tree.locate shell follow location = .ok spot ↔
      walk tree follow left parent [name] = .ok spot := by
  rw [h.locate, Outcome.mapError_eq_ok_iff]

theorem unique {other : Nat} {directory : Route} {last : String}
    (h : tree.Leads shell location left parent name)
    (hother : tree.Leads shell location other directory last) :
    left = other ∧ parent = directory ∧ name = last := by
  have hparts := h.parts.symm.trans hother.parts
  have hreach := h.reach.symm.trans hother.reach
  cases hreach
  exact ⟨rfl, rfl, List.singleton_inj.mp (List.append_cancel_left hparts)⟩

end Leads

/-- A location with a last name leads somewhere, or every look at it fails. -/
theorem leads_or_error (tree : Tree) (shell : Shell) {name : String}
    (hname : location.parts.getLast? = some name) :
    (∃ left parent, tree.Leads shell location left parent name) ∨
      ∀ follow, ∃ failure, tree.locate shell follow location = .error failure := by
  have hparts := parts_eq_of_getLast? hname
  by_cases husable : location.IsUsable
  · cases hreach : reach tree maxLinks (startOf shell location) location.parts.dropLast with
    | ok found => exact .inl ⟨found.1, found.2, husable, hparts, hreach⟩
    | error errno =>
        refine .inr fun follow => ⟨.refused errno location.text, ?_⟩
        rw [locate_of_usable husable, hparts, walk_append_single, hreach]
        rfl
  · obtain ⟨failure, -, hfail⟩ := locate_of_not_usable shell husable
    exact .inr fun follow => ⟨failure, hfail tree follow⟩

section Single

variable {left : Nat} {parent : Route} {name : String}

/-- What is found under a plain name, with a link at the end left alone. -/
theorem walk_single_keep (tree : Tree) (left : Nat) (parent : Route) (h : IsPlainName name) :
    walk tree false left parent [name] =
      match tree.find? (parent ++ [name]) with
      | none => .ok (.vacant parent name)
      | some entry => .ok (.here (parent ++ [name]) entry) := by
  rw [walk_plain _ _ _ _ h]
  cases tree.find? (parent ++ [name]) with
  | none => rfl
  | some entry =>
      cases entry with
      | file bytes modified => rfl
      | directory => simp
      | link target => rfl

theorem walk_single_of_not_link (h : IsPlainName name)
    (hlink : ∀ target, tree.find? (parent ++ [name]) ≠ some (.link target)) (follow : Bool) :
    walk tree follow left parent [name] =
      match tree.find? (parent ++ [name]) with
      | none => .ok (.vacant parent name)
      | some entry => .ok (.here (parent ++ [name]) entry) := by
  rw [walk_plain _ _ _ _ h]
  cases hfind : tree.find? (parent ++ [name]) with
  | none => rfl
  | some entry =>
      cases entry with
      | file bytes modified => rfl
      | directory => simp
      | link target => exact absurd hfind (hlink target)

/-- Where nothing or a file is, there is a place for a file. -/
theorem walk_single_of_free (left : Nat) (hplain : IsPlainName name)
    (hfree : tree.find? (parent ++ [name]) = none ∨
      ∃ old since, tree.find? (parent ++ [name]) = some (.file old since)) :
    ∃ spot, walk tree true left parent [name] = .ok spot ∧ spot.route = parent ++ [name] ∧
      ∀ found, spot ≠ .here found .directory := by
  rcases hfree with hnone | ⟨old, since, hfile⟩
  · refine ⟨.vacant parent name, ?_, rfl, fun _ => Spot.noConfusion⟩
    rw [walk_plain _ _ _ _ hplain, hnone]
    rfl
  · refine ⟨.here (parent ++ [name]) (.file old since), ?_, rfl, fun _ => by simp⟩
    rw [walk_plain _ _ _ _ hplain, hfile]
    rfl

end Single

/-- A spot agrees with the tree. A directory is not looked up again: the one that a walk starts in
is taken for granted. -/
def Holds (tree : Tree) : Spot → Prop
  | .here route entry => entry = .directory ∨ tree.find? route = some entry
  | .vacant parent name => IsPlainName name ∧ tree.find? (parent ++ [name]) = none

theorem holds_of_walk {links : Nat} {directory : Route} {names : List String} {spot : Spot}
    (h : walk tree follow links directory names = .ok spot) : tree.Holds spot := by
  induction links, directory, names using walk_induction tree with
  | nil =>
      rw [walk_nil] at h
      cases h
      exact .inl rfl
  | dot links directory rest ih => exact ih (by rwa [walk_dot] at h)
  | dots links directory rest ih => exact ih (by rwa [walk_dots] at h)
  | long links directory name rest hdot hdots hlong =>
      rw [walk_long _ _ _ _ hdot hdots hlong] at h
      cases h
  | absent links directory name rest hplain hfind =>
      rw [walk_plain _ _ _ _ hplain, hfind] at h
      cases rest with
      | nil => cases h; exact ⟨hplain, hfind⟩
      | cons next rest => cases h
  | file links directory name rest bytes modified hplain hfind =>
      rw [walk_plain _ _ _ _ hplain, hfind] at h
      cases rest with
      | nil => cases h; exact .inr hfind
      | cons next rest => cases h
  | directory links directory name rest hplain hfind ih =>
      rw [walk_plain _ _ _ _ hplain, hfind] at h
      exact ih h
  | lastLink directory name rest target hplain hfind =>
      rw [walk_plain _ _ _ _ hplain, hfind] at h
      dsimp only at h
      split at h
      · cases h; exact .inr hfind
      · cases h
  | link links directory name rest target hplain hfind ih =>
      rw [walk_plain _ _ _ _ hplain, hfind] at h
      dsimp only at h
      split at h
      · cases h; exact .inr hfind
      · exact ih h

/-- A walk that ends where a file is ends at the file. -/
theorem Holds.eq_here {bytes : List UInt8} {modified : Modified} (h : tree.Holds spot)
    (hspot : ∀ found, spot ≠ .here found .directory)
    (hfile : tree.find? spot.route = some (.file bytes modified)) :
    spot = .here spot.route (.file bytes modified) := by
  cases spot with
  | vacant directory name =>
      cases h.2.symm.trans hfile
  | here route entry =>
      rcases h with rfl | hfind
      · exact absurd rfl (hspot route)
      · rw [Option.some.inj (hfind.symm.trans hfile)]
        rfl

/-- Directories and links that are there before are there afterwards. -/
def KeepsPaths (before after : Tree) : Prop :=
  ∀ route entry, before.find? route = some entry →
    (∀ bytes modified, entry ≠ .file bytes modified) → after.find? route = some entry

theorem Passes.of_keepsPaths {before after : Tree} (hkeeps : before.KeepsPaths after) {links : Nat}
    {directory : Route} {names : List String} {result : Nat × Route}
    (h : before.Passes links directory names result) :
    after.Passes links directory names result := by
  induction h with
  | nil links directory => exact .nil links directory
  | dot _ ih => exact .dot ih
  | dots _ ih => exact .dots ih
  | directory hplain hfind _ ih =>
      exact .directory hplain (hkeeps _ _ hfind fun _ _ => Entry.noConfusion) ih
  | link hplain hfind _ ih =>
      exact .link hplain (hkeeps _ _ hfind fun _ _ => Entry.noConfusion) ih

theorem reach_of_keepsPaths {before after : Tree} (hkeeps : before.KeepsPaths after) {links : Nat}
    {directory : Route} {names : List String} {result : Nat × Route}
    (h : reach before links directory names = .ok result) :
    reach after links directory names = .ok result :=
  ((passes_iff.mpr h).of_keepsPaths hkeeps).reach

theorem Leads.of_keepsPaths {before after : Tree} {left : Nat} {parent : Route} {name : String}
    (h : before.Leads shell location left parent name) (hkeeps : before.KeepsPaths after) :
    after.Leads shell location left parent name :=
  ⟨h.usable, h.parts, reach_of_keepsPaths hkeeps h.reach⟩

/-- Putting a file where there is none, or in place of another one, keeps all paths. -/
theorem keepsPaths_put_file {place : Route} (bytes : List UInt8) (modified : Modified)
    (h : tree.find? place = none ∨ ∃ old since, tree.find? place = some (.file old since)) :
    tree.KeepsPaths (tree.apply (.put place (.file bytes modified))) := by
  intro route entry hfind hentry
  have hne : route ≠ place := by
    rintro rfl
    rcases h with hnone | ⟨old, since, hfile⟩
    · rw [hnone] at hfind; cases hfind
    · rw [hfile] at hfind; cases hfind; exact hentry old since rfl
  rw [find?_apply_of_ne tree hne, hfind]

/-! ## Without an entry -/

section Entry

variable {before after : Tree} {links left : Nat} {directory parent place : Route}
  {names : List String} {name : String} {spot : Spot}

theorem keepsPaths_remove (tree : Tree) (route : Route) :
    (tree.apply (.remove route)).KeepsPaths tree := fun _ _ h _ => find?_of_remove h

/-- Names that lead through directories do so without an entry, unless the entry is one of them. -/
theorem reach_remove_or (route : Route)
    (h : reach tree links directory names = .ok (left, place)) :
    reach (tree.apply (.remove route)) links directory names = .ok (left, place) ∨
      ∃ less parent name found, IsPlainName name ∧ route = parent ++ [name] ∧
        walk tree true less parent [name] = .ok (.here found .directory) := by
  have hwalk := (walk_directory_iff _ _ _ _ _).mpr ⟨left, h⟩
  rcases walk_remove_or route hwalk with hwalk | ⟨less, parent, name, rest, -, hplain, hroute, hmet⟩
  · left
    obtain ⟨other, hreach⟩ := (walk_directory_iff _ _ _ _ _).mp hwalk
    have hsame := (reach_of_keepsPaths (keepsPaths_remove tree route) hreach).symm.trans h
    rw [hreach, hsame]
  · right
    obtain ⟨first, hfirst, rfl | ⟨found, rfl⟩⟩ := walk_first hmet
    · exact ⟨less, parent, name, place, hplain, hroute, hfirst⟩
    · exact ⟨less, parent, name, found, hplain, hroute, hfirst⟩

/-- A path comes through no entry that is not a directory. -/
theorem Leads.remove_of_ne {short : String} (h : tree.Leads shell location left directory name)
    (hfile : ∀ {links spot}, walk tree true links parent [short] = .ok spot →
      ∀ found, spot ≠ .here found .directory) :
    (tree.apply (.remove (parent ++ [short]))).Leads shell location left directory name := by
  refine ⟨h.usable, h.parts, ?_⟩
  rcases reach_remove_or (parent ++ [short]) h.reach with hreach | hmet
  · exact hreach
  · obtain ⟨less, other, next, found, -, hroute, hwalk⟩ := hmet
    obtain ⟨rfl, hnext⟩ := List.append_inj' hroute rfl
    obtain rfl := List.singleton_inj.mp hnext
    exact absurd rfl (hfile hwalk found)

/-- Where directories and links are kept, a place that stays one for a file is still led to. -/
theorem walk_of_keepsPaths (hkeeps : before.KeepsPaths after)
    (h : walk before true links directory names = .ok spot)
    (hfile : ∀ found, spot ≠ .here found .directory)
    (hfree : after.find? spot.route = none ∨
      ∃ old since, after.find? spot.route = some (.file old since)) :
    ∃ other, walk after true links directory names = .ok other ∧ other.route = spot.route ∧
      ∀ found, other ≠ .here found .directory := by
  have harrives := arrives_iff.mpr h
  clear h
  induction harrives with
  | nil links directory => exact absurd rfl (hfile directory)
  | dot _ ih =>
      rw [walk_dot]
      exact ih hfile hfree
  | dots _ ih =>
      rw [walk_dots]
      exact ih hfile hfree
  | vacant links hplain hfind => exact walk_single_of_free links hplain hfree
  | file links hplain hfind => exact walk_single_of_free links hplain hfree
  | directory hplain hfind _ ih =>
      have hthere := hkeeps _ _ hfind fun _ _ => Entry.noConfusion
      rw [walk_plain _ _ _ _ hplain, hthere]
      exact ih hfile hfree
  | link hplain hfind _ ih =>
      have hthere := hkeeps _ _ hfind fun _ _ => Entry.noConfusion
      rw [walk_link hplain hthere]
      exact ih hfile hfree

end Entry

end Tree

end SourceAtlas
