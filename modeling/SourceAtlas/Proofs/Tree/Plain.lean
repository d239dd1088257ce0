import Mathlib.Data.List.Induction
import SourceAtlas.Proofs.Path.Name
import SourceAtlas.Proofs.Tree.Real
import SourceAtlas.Tree.Disk

/-!
# Plain projects

On a disk every entry has a proper name, lies in a directory, and is there once. A project is plain
when there are only files and directories in it, and no name looks like that of a temporary file.
-/

namespace SourceAtlas

namespace Tree

/-- The entries of a tree as a disk holds them. -/
structure IsSound (tree : Tree) : Prop where
  distinct : (tree.entries.map Prod.fst).Nodup
  names : ∀ route entry, tree.find? route = some entry → ∀ name ∈ route, IsName name
  parents : ∀ route name entry, tree.find? (route ++ [name]) = some entry →
    tree.find? route = some .directory

/-- The directory holds files and directories only, and no temporary files. -/
structure IsPlain (tree : Tree) (root : Route) : Prop where
  sound : tree.IsSound
  directory : tree.find? root = some .directory
  noLink : ∀ route target, tree.find? (root ++ route) ≠ some (.link target)
  noTemporary : ∀ route name entry, tree.find? (root ++ route) = some entry → name ∈ route →
    ∀ short, name ≠ short ++ Disk.temporaryEnding

variable {tree : Tree} {root route : Route} {entry : Entry}

/-! ## Entries that are there once -/

theorem mem_map_fst_setEntry (place route : Route) (entry : Entry)
    (entries : List (Route × Entry)) :
    route ∈ (setEntry place entry entries).map Prod.fst ↔
      route = place ∨ route ∈ entries.map Prod.fst := by
  induction entries with
  | nil => simp [setEntry]
  | cons first rest ih =>
      obtain ⟨r, e⟩ := first
      unfold setEntry
      split
      · next hsame => simp [hsame]
      · rw [List.map_cons, List.mem_cons, ih, List.map_cons, List.mem_cons]
        exact or_left_comm

theorem nodup_setEntry (place : Route) (entry : Entry) {entries : List (Route × Entry)}
    (h : (entries.map Prod.fst).Nodup) : ((setEntry place entry entries).map Prod.fst).Nodup := by
  induction entries with
  | nil => simp [setEntry]
  | cons first rest ih =>
      obtain ⟨r, e⟩ := first
      rw [List.map_cons, List.nodup_cons] at h
      unfold setEntry
      split
      · next hsame => simpa [← hsame] using h
      · next hne =>
          rw [List.map_cons, List.nodup_cons, mem_map_fst_setEntry, not_or]
          exact ⟨⟨hne, h.1⟩, ih h.2⟩

theorem distinct_apply (h : (tree.entries.map Prod.fst).Nodup) (edit : Edit) :
    ((tree.apply edit).entries.map Prod.fst).Nodup := by
  cases edit with
  | put place entry => exact nodup_setEntry place entry h
  | remove place => exact h.sublist (List.filter_sublist.map _)

theorem distinct_applyAll (h : (tree.entries.map Prod.fst).Nodup) (edits : List Edit) :
    ((tree.applyAll edits).entries.map Prod.fst).Nodup := by
  induction edits generalizing tree with
  | nil => exact h
  | cons edit rest ih => exact ih (distinct_apply h edit)

theorem lookup_eq_some_iff {entries : List (Route × Entry)}
    (h : (entries.map Prod.fst).Nodup) :
    entries.lookup route = some entry ↔ (route, entry) ∈ entries := by
  induction entries with
  | nil => simp
  | cons first rest ih =>
      obtain ⟨r, e⟩ := first
      rw [List.map_cons, List.nodup_cons] at h
      by_cases hr : route = r
      · subst hr
        have hrest : (route, entry) ∉ rest := fun hmem =>
          h.1 (List.mem_map.mpr ⟨(route, entry), hmem, rfl⟩)
        simp [hrest, eq_comm]
      · simp [List.lookup_cons, beq_false_of_ne hr, ih h.2, hr]

theorem IsSound.mem_entries_iff (h : tree.IsSound) (hne : route ≠ []) :
    (route, entry) ∈ tree.entries ↔ tree.find? route = some entry := by
  rw [find?_of_ne_nil _ hne, lookup_eq_some_iff h.distinct]

/-! ## Directories on a route -/

theorem IsSound.directory_above (h : tree.IsSound) {front back : Route}
    (hfind : tree.find? (front ++ back) = some entry) (hback : back ≠ []) :
    tree.find? front = some .directory := by
  induction back using List.reverseRecOn generalizing entry with
  | nil => exact absurd rfl hback
  | append_singleton rest name ih =>
      rw [← List.append_assoc] at hfind
      have hparent := h.parents _ _ _ hfind
      cases rest with
      | nil => rwa [List.append_nil] at hparent
      | cons first rest => exact ih hparent (List.cons_ne_nil _ _)

/-- The route of a directory is real. -/
theorem IsSound.isReal (h : tree.IsSound) (hfind : tree.find? route = some .directory) :
    tree.IsReal route := by
  rintro front name ⟨back, rfl⟩
  have hname := h.names _ _ hfind name (by simp)
  refine ⟨hname.plain, ?_⟩
  cases back with
  | nil => rwa [List.append_nil] at hfind
  | cons next rest => exact h.directory_above hfind (List.cons_ne_nil _ _)

/-! ## Files on a disk -/

section Files

variable {shell : Shell} {location : Location} {bytes : List UInt8} {modified : Modified}

/-- A file on a disk is found at its own route. -/
theorem IsSound.stat_file (h : tree.IsSound) (hfind : tree.find? route = some (.file bytes modified))
    (shell : Shell) (husable : (Location.ofRoute route).IsUsable) :
    tree.stat shell (.ofRoute route) = .ok (route, .file bytes modified) := by
  have hne : route ≠ [] := by
    rintro rfl
    cases hfind
  obtain ⟨front, name, rfl⟩ : ∃ front name, route = front ++ [name] :=
    ⟨_, _, (List.dropLast_concat_getLast hne).symm⟩
  have hplain := (h.names _ _ hfind name (by simp)).plain
  have hlead := (h.isReal (h.parents _ _ _ hfind)).leads shell husable (root_ofRoute_ne _) rfl
  rw [stat_eq_ok_iff, hlead.locate_eq_ok_iff, walk_single_of_not_link hplain (by simp [hfind]),
    hfind]

/-- The bytes of a file on a disk can be read unless its path is too long. -/
theorem IsSound.readBytes_file (h : tree.IsSound)
    (hfind : tree.find? route = some (.file bytes modified)) (shell : Shell) :
    ((Location.ofRoute route).IsUsable ∧ tree.readBytes shell (.ofRoute route) = .ok bytes) ∨
      (¬ (Location.ofRoute route).IsUsable ∧
        ∃ failure, tree.readBytes shell (.ofRoute route) = .error failure) := by
  by_cases husable : (Location.ofRoute route).IsUsable
  · refine .inl ⟨husable, ?_⟩
    unfold readBytes
    rw [h.stat_file hfind shell husable]
    rfl
  · obtain ⟨failure, -, hlocate⟩ := locate_of_not_usable shell husable
    refine .inr ⟨husable, failure, ?_⟩
    unfold readBytes stat
    rw [hlocate]
    rfl

end Files

/-! ## Routes of a plain project -/

namespace IsPlain

variable (h : tree.IsPlain root)

include h

theorem isReal : tree.IsReal root := h.sound.isReal h.directory

theorem find?_temporary (front : Route) (name : String) :
    tree.find? (root ++ (front ++ [name ++ Disk.temporaryEnding])) = none := by
  cases hfind : tree.find? (root ++ (front ++ [name ++ Disk.temporaryEnding])) with
  | none => rfl
  | some entry => exact absurd rfl (h.noTemporary _ _ entry hfind (by simp) name)

/-- Everything on the way to an entry of the project is a directory. -/
theorem directory_above {front back : Route}
    (hfind : tree.find? (root ++ (front ++ back)) = some entry) (hback : back ≠ []) :
    tree.find? (root ++ front) = some .directory := by
  rw [← List.append_assoc] at hfind
  exact h.sound.directory_above hfind hback

end IsPlain

/-! ## Looking into a plain project -/

section Lookup

variable {shell : Shell}

/-- Where a plain project is looked into, the entry is found, or the system says that there is
none. -/
inductive Lookup (tree : Tree) (place : Route) : Except Errno Spot → Prop
  | found (entry : Entry) : tree.find? place = some entry →
      Lookup tree place (.ok (.here place entry))
  | vacant (directory : Route) (name : String) : tree.find? place = none →
      Lookup tree place (.ok (.vacant directory name))
  | absent (errno : Errno) : tree.find? place = none → errno.isAbsence = true →
      Lookup tree place (.error errno)

theorem IsPlain.lookup_walk (h : tree.IsPlain root) (front names : Route)
    (hnames : ∀ name ∈ names, IsPlainName name)
    (hfront : tree.find? (root ++ front) = some .directory) (links : Nat) :
    Lookup tree (root ++ (front ++ names)) (walk tree true links (root ++ front) names) := by
  induction names generalizing front with
  | nil =>
      rw [walk_nil, List.append_nil]
      exact .found _ hfront
  | cons name rest ih =>
      have hplain := hnames name List.mem_cons_self
      have hsplit : front ++ name :: rest = (front ++ [name]) ++ rest := by simp
      have hnext : (root ++ front) ++ [name] = root ++ (front ++ [name]) := by simp
      rw [walk_plain _ _ _ _ hplain, hsplit, hnext]
      -- What is no directory has nothing below it.
      have hbelow : rest ≠ [] → tree.find? (root ++ (front ++ [name])) ≠ some .directory →
          tree.find? (root ++ (front ++ [name] ++ rest)) = none := by
        intro hrest hother
        rw [Option.eq_none_iff_forall_ne_some]
        exact fun entry hentry => hother (h.directory_above hentry hrest)
      cases hfind : tree.find? (root ++ (front ++ [name])) with
      | none =>
          dsimp only
          by_cases hrest : rest = []
          · subst hrest
            exact .vacant _ _ (by rwa [List.append_nil])
          · rw [if_neg (by simpa using hrest)]
            exact .absent _ (hbelow hrest (by simp [hfind])) rfl
      | some found =>
          cases found with
          | file bytes modified =>
              dsimp only
              by_cases hrest : rest = []
              · subst hrest
                rw [List.append_nil]
                exact .found _ hfind
              · rw [if_neg (by simpa using hrest)]
                exact .absent _ (hbelow hrest (by simp [hfind])) rfl
          | directory =>
              dsimp only
              exact ih _ (fun other hother => hnames other (List.mem_cons_of_mem _ hother)) hfind
          | link target => exact absurd hfind (h.noLink _ target)

/-- In a plain project an entry is found at its own route, or the system says that there is none. -/
theorem IsPlain.stat_cases (h : tree.IsPlain root) (shell : Shell) {names : Route}
    (hnames : ∀ name ∈ names, IsPlainName name)
    (husable : (Location.ofRoute (root ++ names)).IsUsable) :
    (∃ entry, tree.find? (root ++ names) = some entry ∧
        tree.stat shell (.ofRoute (root ++ names)) = .ok (root ++ names, entry)) ∨
      (tree.find? (root ++ names) = none ∧ ∃ errno path, errno.isAbsence = true ∧
        tree.stat shell (.ofRoute (root ++ names)) = .error (.refused errno path)) := by
  have hdirectory : tree.find? (root ++ []) = some .directory := by
    rw [List.append_nil]
    exact h.directory
  have hwalk : Tree.walk tree true maxLinks [] (root ++ names) =
      Tree.walk tree true maxLinks root names := IsReal.walk [] h.isReal true maxLinks names
  have hlookup := h.lookup_walk [] names hnames hdirectory maxLinks
  rw [List.nil_append, List.append_nil, ← hwalk] at hlookup
  unfold stat
  rw [locate_of_usable husable]
  change Lookup tree (root ++ names) (Tree.walk tree true maxLinks
    (startOf shell (.ofRoute (root ++ names))) (Location.ofRoute (root ++ names)).parts) at hlookup
  generalize Tree.walk tree true maxLinks (startOf shell (.ofRoute (root ++ names)))
    (Location.ofRoute (root ++ names)).parts = outcome at hlookup
  cases hlookup with
  | found entry hfind => exact .inl ⟨entry, hfind, rfl⟩
  | vacant directory name hnone => exact .inr ⟨hnone, .noEntry, _, rfl, rfl⟩
  | absent errno hnone habsence => exact .inr ⟨hnone, errno, _, habsence, rfl⟩

/-- Looking at a plain project tells what is there. -/
theorem IsPlain.probe_eq (h : tree.IsPlain root) (shell : Shell) {names : Route}
    (hnames : ∀ name ∈ names, IsPlainName name)
    (husable : (Location.ofRoute (root ++ names)).IsUsable) :
    tree.probe shell (.ofRoute (root ++ names)) = .ok (tree.find? (root ++ names)) := by
  unfold probe
  rcases h.stat_cases shell hnames husable with
    ⟨entry, hfind, hstat⟩ | ⟨hnone, errno, path, habsence, hstat⟩
  · rw [hstat, hfind]
  · rw [hstat, hnone]
    dsimp only
    rw [if_pos habsence]

end Lookup

/-! ## Plain projects stay plain -/

/-- One tree is another one with an entry at a route. -/
def IsWith (before : Tree) (route : Route) (entry : Entry) (after : Tree) : Prop :=
  ∀ place, after.find? place = if place = route then some entry else before.find? place

/-- Two trees hold the same entries. -/
def IsSame (before after : Tree) : Prop := ∀ place, after.find? place = before.find? place

/-- What an entry of a plain project may be called. -/
structure IsProjectName (name : String) : Prop where
  isName : IsName name
  notTemporary : ∀ short, name ≠ short ++ Disk.temporaryEnding

variable {before after : Tree} {front : Route} {name : String}

theorem IsPlain.isProjectName (h : tree.IsPlain root)
    (hfind : tree.find? (root ++ route) = some entry) (hmem : name ∈ route) :
    IsProjectName name :=
  ⟨h.sound.names _ _ hfind name (List.mem_append_right _ hmem), h.noTemporary _ _ _ hfind hmem⟩

theorem IsPlain.of_isSame (h : before.IsPlain root) (hsame : before.IsSame after)
    (hdistinct : (after.entries.map Prod.fst).Nodup) : after.IsPlain root where
  sound := by
    refine ⟨hdistinct, fun route entry hfind => ?_, fun route name entry hfind => ?_⟩
    · exact h.sound.names route entry (hsame route ▸ hfind)
    · rw [hsame]
      exact h.sound.parents route name entry (hsame _ ▸ hfind)
  directory := by rw [hsame, h.directory]
  noLink route target hfind := h.noLink route target (hsame _ ▸ hfind)
  noTemporary route name entry hfind := h.noTemporary route name entry (hsame _ ▸ hfind)

theorem IsWith.find?_cases {place : Route} {found : Entry}
    (h : before.IsWith route entry after) (hfind : after.find? place = some found) :
    place = route ∧ found = entry ∨ before.find? place = some found := by
  rw [h] at hfind
  split at hfind
  · next hsame => exact .inl ⟨hsame, (Option.some.inj hfind).symm⟩
  · exact .inr hfind

theorem IsWith.keepsDirectories (h : before.IsWith route entry after)
    (hfree : entry = .directory ∨ before.find? route ≠ some .directory) :
    before.KeepsDirectories after := by
  intro place hplace
  rw [h]
  split
  · next hsame =>
      rcases hfree with rfl | hfree
      · rfl
      · exact absurd (hsame ▸ hplace) hfree
  · exact hplace

/-- A file or a directory in a directory of a plain project leaves the project plain, unless it
takes the place of a directory. -/
theorem IsPlain.of_isWith (h : before.IsPlain root)
    (hwith : before.IsWith (root ++ (front ++ [name])) entry after)
    (hdistinct : (after.entries.map Prod.fst).Nodup)
    (hparent : before.find? (root ++ front) = some .directory) (hname : IsProjectName name)
    (hlink : ∀ target, entry ≠ .link target)
    (hfree : entry = .directory ∨ before.find? (root ++ (front ++ [name])) ≠ some .directory) :
    after.IsPlain root := by
  have hkeeps := hwith.keepsDirectories hfree
  refine ⟨⟨hdistinct, ?names, ?parents⟩, hkeeps _ h.directory, ?noLink, ?noTemporary⟩
  case names =>
    intro route found hfind last hmem
    rcases hwith.find?_cases hfind with ⟨rfl, -⟩ | hfind
    · rw [← List.append_assoc] at hmem
      rcases List.mem_append.mp hmem with hmem | hmem
      · exact h.sound.names _ _ hparent _ hmem
      · obtain rfl := List.mem_singleton.mp hmem
        exact hname.isName
    · exact h.sound.names _ _ hfind last hmem
  case parents =>
    intro route last found hfind
    rcases hwith.find?_cases hfind with ⟨hsame, -⟩ | hfind
    · rw [← List.append_assoc] at hsame
      obtain rfl := (List.append_inj' hsame rfl).1
      exact hkeeps _ hparent
    · exact hkeeps _ (h.sound.parents _ _ _ hfind)
  case noLink =>
    intro route target hfind
    rcases hwith.find?_cases hfind with ⟨-, hwrong⟩ | hfind
    · exact absurd hwrong.symm (hlink target)
    · exact h.noLink _ _ hfind
  case noTemporary =>
    intro route last found hfind hmem
    rcases hwith.find?_cases hfind with ⟨hsame, -⟩ | hfind
    · obtain rfl := List.append_cancel_left hsame
      rcases List.mem_append.mp hmem with hmem | hmem
      · exact h.noTemporary _ _ _ hparent hmem
      · obtain rfl := List.mem_singleton.mp hmem
        exact hname.notTemporary
    · exact h.noTemporary _ _ _ hfind hmem

/-- A file in place of a file leaves the project plain. -/
theorem IsPlain.of_isWith_file (h : before.IsPlain root) {bytes old : List UInt8}
    {modified since : Modified} (hbelow : root <+: route)
    (hfind : before.find? route = some (.file old since))
    (hwith : before.IsWith route (.file bytes modified) after)
    (hdistinct : (after.entries.map Prod.fst).Nodup) : after.IsPlain root := by
  obtain ⟨back, rfl⟩ := hbelow
  have hne : back ≠ [] := by
    rintro rfl
    rw [List.append_nil, h.directory] at hfind
    cases hfind
  have hlast := (List.dropLast_concat_getLast hne).symm
  rw [hlast] at hfind hwith
  refine h.of_isWith hwith hdistinct (h.directory_above hfind (List.cons_ne_nil _ _))
    (h.isProjectName hfind (by simp)) nofun (.inr ?_)
  rw [hfind]
  nofun

/-! ## Projects given by their entries -/

instance (name : String) : Decidable (IsPlainName name) := inferInstanceAs (Decidable (_ ∧ _))

instance (name : String) : Decidable (IsName name) :=
  decidable_of_iff (IsPlainName name ∧ name ≠ "" ∧ '/' ∉ name.toList ∧ '\x00' ∉ name.toList)
    ⟨fun h => ⟨h.1, h.2.1, h.2.2.1, h.2.2.2⟩, fun h => ⟨h.plain, h.ne_empty, h.slash, h.nul⟩⟩

/-- The name looks like that of a temporary file. -/
def isTemporary (name : String) : Bool :=
  (Text.dropEnd? Disk.temporaryEnding.toList name.toList).isSome

theorem isTemporary_append (short : String) : isTemporary (short ++ Disk.temporaryEnding) = true := by
  rw [isTemporary, Text.dropEnd?_eq_some_iff.mpr String.toList_append]
  rfl

/-- The entry is a link. -/
def isLink : Entry → Bool
  | .link _ => true
  | _ => false

/-- Whether a project is plain can be read off its entries. -/
theorem isPlain_of_entries (hdistinct : (tree.entries.map Prod.fst).Nodup)
    (hentries : ∀ item ∈ tree.entries, item.1 ≠ [] ∧
      (∀ name ∈ item.1, IsName name ∧ isTemporary name = false) ∧
      tree.find? item.1.dropLast = some .directory ∧ isLink item.2 = false)
    (hroot : tree.find? root = some .directory) : tree.IsPlain root := by
  have hfound : ∀ {route entry}, tree.find? route = some entry → route ≠ [] →
      (route, entry) ∈ tree.entries := by
    intro route entry hfind hne
    rwa [find?_of_ne_nil _ hne, lookup_eq_some_iff hdistinct] at hfind
  refine ⟨⟨hdistinct, ?_, ?_⟩, hroot, ?_, ?_⟩
  · intro route entry hfind name hmem
    exact ((hentries _ (hfound hfind (List.ne_nil_of_mem hmem))).2.1 name hmem).1
  · intro route name entry hfind
    have hparent := (hentries _ (hfound hfind (by simp))).2.2.1
    rwa [List.dropLast_concat] at hparent
  · intro route target hfind
    have hne : root ++ route ≠ [] := by
      intro hnil
      rw [hnil] at hfind
      cases hfind
    have hlink := (hentries _ (hfound hfind hne)).2.2.2
    cases hlink
  · intro route name entry hfind hmem short hname
    have hin : name ∈ root ++ route := List.mem_append_right _ hmem
    have htemporary := ((hentries _ (hfound hfind (List.ne_nil_of_mem hin))).2.1 name hin).2
    rw [hname, isTemporary_append] at htemporary
    cases htemporary

/-! ## Paths without links -/

/-- No name on the way is empty or a step to the parent, and no one is a link. -/
def IsStraight (tree : Tree) (directory names : Route) : Prop :=
  ∀ front name, front ++ [name] <+: names → IsPlainName name ∧ name ≠ "" ∧
    ∀ target, tree.find? (directory ++ (front ++ [name])) ≠ some (.link target)

namespace IsStraight

variable {shell : Shell} {directory names : Route}

theorem of_isPrefix {front : Route} (h : tree.IsStraight directory names) (hfront : front <+: names) :
    tree.IsStraight directory front := fun first name hname => h first name (hname.trans hfront)

theorem tail (h : tree.IsStraight directory (name :: names)) :
    tree.IsStraight (directory ++ [name]) names := by
  intro front last hfront
  have hlonger := h (name :: front) last (by simpa using hfront)
  simpa [List.append_assoc] using hlonger

/-- A walk along such names does not end at a link. -/
theorem walk_ne_link (h : tree.IsStraight directory names) (links : Nat) (place : Route)
    (target : String) : walk tree false links directory names ≠ .ok (.here place (.link target)) := by
  induction names generalizing directory with
  | nil =>
      rw [walk_nil]
      exact fun hwrong => nomatch hwrong
  | cons name rest ih =>
      obtain ⟨hplain, -, hlink⟩ := h [] name (by simp)
      rw [List.nil_append] at hlink
      rw [walk_plain _ _ _ _ hplain]
      cases hfind : tree.find? (directory ++ [name]) with
      | none =>
          dsimp only
          split <;> exact fun hwrong => nomatch hwrong
      | some entry =>
          cases entry with
          | file bytes modified =>
              dsimp only
              split <;> exact fun hwrong => nomatch hwrong
          | directory => exact ih h.tail
          | link target => exact absurd hfind (hlink target)

theorem linkAt?_eq (h : tree.IsStraight [] names) (shell : Shell)
    (hnul : (Location.ofRoute names).hasNul = false) :
    tree.linkAt? shell (.ofRoute names) = .ok none := by
  rw [linkAt?_of_walk_ne_link (h.walk_ne_link maxLinks), if_neg (by simp [hnul])]

/-- Such names lead where they say. -/
theorem realWith_eq {follow : Met → Location → List String → Except Halt (Location × Met)} {met : Met}
    {front : Route} (h : tree.IsStraight [] (front ++ names))
    (hnul : (Location.ofRoute (front ++ names)).hasNul = false) :
    realWith tree shell follow met (.ofRoute front) names =
      .ok (.ofRoute (front ++ names), met) := by
  induction names generalizing front with
  | nil => rw [realWith, List.append_nil]
  | cons name rest ih =>
      have hsplit : front ++ name :: rest = (front ++ [name]) ++ rest := by simp
      rw [hsplit] at h hnul ⊢
      obtain ⟨hplain, hempty, -⟩ := h front name (List.prefix_append _ _)
      have hshort : (Location.ofRoute (front ++ [name])).hasNul = false := by
        simp only [Location.hasNul, Location.ofRoute, List.any_append, Bool.or_eq_false_iff] at hnul ⊢
        exact hnul.1
      have hlink := (h.of_isPrefix (List.prefix_append _ _)).linkAt?_eq shell hshort
      rw [realWith, if_neg (by simp [hempty, hplain.1]), if_neg hplain.2.1]
      dsimp only [Location.below, Location.ofRoute] at hlink ⊢
      rw [hlink]
      exact ih h hnul

end IsStraight

theorem foldParents_of_plain {names : List String} (h : ".." ∉ names) :
    foldParents names = names := by
  have hfold : ∀ done : List String,
      names.foldl (fun done name => if name = ".." then done.tail else name :: done) done =
        names.reverse ++ done := by
    induction names with
    | nil => exact fun _ => rfl
    | cons name rest ih =>
        intro done
        have hname : name ≠ ".." := fun hsame => h (hsame ▸ List.mem_cons_self)
        rw [List.foldl_cons, if_neg hname, ih fun hmem => h (List.mem_cons_of_mem _ hmem)]
        simp
  unfold foldParents
  rw [hfold, List.append_nil, List.reverse_reverse]

/-- A route without links is its own real path, unless a look at it fails for links. -/
theorem resolve_of_straight {shell : Shell} (h : tree.IsStraight [] route)
    (hnul : (Location.ofRoute route).hasNul = false)
    (hstat : ∀ path goal, tree.stat shell (.ofRoute route) ≠ .error (.refused .loop path goal)) :
    tree.resolve shell (.ofRoute route) = .ok (.ofRoute route) := by
  have hdots : ".." ∉ route := by
    intro hmem
    obtain ⟨front, back, rfl⟩ := List.append_of_mem hmem
    exact (h front ".." (by simp)).1.2.1 rfl
  have hreal : tree.realPath shell (.ofRoute route) = .ok (.ofRoute route) := by
    have hwalked : real tree shell maxNesting [] (.ofRoute []) route = .ok (.ofRoute route, []) :=
      (show tree.IsStraight [] ([] ++ route) from h).realWith_eq hnul
    have hstart : realStart (.ofRoute route) = .ofRoute [] := rfl
    unfold realPath
    rw [hstart]
    dsimp only [Location.ofRoute] at hwalked ⊢
    rw [hwalked]
    exact congrArg (fun parts => Except.ok (Location.ofRoute parts)) (foldParents_of_plain hdots)
  unfold resolve
  rw [hreal]
  dsimp only [bind, Except.bind]
  split
  · next text goal hloop => exact absurd hloop (hstat text goal)
  · next hfail => exact absurd hfail (stat_ne_nulByte hnul)
  · rfl

/-- Everything in a plain project is reached without links. -/
theorem IsPlain.isStraight (h : tree.IsPlain root) {back : Route}
    (hfind : tree.find? (root ++ back) = some entry) : tree.IsStraight [] (root ++ back) := by
  rintro front name ⟨behind, hsplit⟩
  have hname := h.sound.names _ _ hfind name (by rw [← hsplit]; simp)
  refine ⟨hname.plain, hname.ne_empty, fun target hlink => ?_⟩
  rw [List.nil_append] at hlink
  cases behind with
  | nil =>
      rw [List.append_nil] at hsplit
      rw [hsplit] at hlink
      exact h.noLink _ _ hlink
  | cons next rest =>
      rw [← hsplit] at hfind
      have hdirectory := h.sound.directory_above hfind (List.cons_ne_nil _ _)
      rw [hdirectory] at hlink
      cases hlink

/-- A directory is found only where one is. -/
theorem IsPlain.directory_of_stat (h : tree.IsPlain root) {shell : Shell} {place : Route}
    (hname : IsPlainName name)
    (hstat : tree.stat shell (.ofRoute (root ++ [name])) = .ok (place, .directory)) :
    tree.find? (root ++ [name]) = some .directory := by
  have hlocate := stat_eq_ok_iff.mp hstat
  have husable := (locate_eq_ok_iff.mp hlocate).1
  rw [(h.isReal.leads shell husable (root_ofRoute_ne _) rfl).locate_eq_ok_iff,
    walk_single_of_not_link hname fun target => h.noLink [name] target] at hlocate
  cases hfind : tree.find? (root ++ [name]) with
  | none => rw [hfind] at hlocate; cases hlocate
  | some entry => rw [hfind] at hlocate; cases hlocate; rfl

end Tree

end SourceAtlas
