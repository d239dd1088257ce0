import SourceAtlas.Proofs.Listing.Walk

/-!
# Listings from git

Whether git lists a project or the directories are walked, the same filter lets the same paths
through. The listings differ where a name holds a backslash, because git's paths get slashes in its
place and the paths of the walk do not, and where the system does not list a directory.
-/

namespace SourceAtlas

namespace Path

theorem not_mem_toSlashes (path : String) : '\\' ∉ (toSlashes path).toList := by
  unfold toSlashes
  rw [String.toList_ofList, List.mem_map]
  rintro ⟨c, -, hc⟩
  split at hc
  · cases hc
  · next hne => exact hne hc

theorem toSlashes_of_not_mem {path : String} (h : '\\' ∉ path.toList) : toSlashes path = path := by
  unfold toSlashes
  have hsame : path.toList.map (fun c => if c = '\\' then '/' else c) = path.toList := by
    conv_rhs => rw [← List.map_id path.toList]
    refine List.map_congr_left fun c hc => ?_
    have hne : c ≠ '\\' := fun hback => h (hback ▸ hc)
    rw [if_neg hne, id]
  rw [hsame, String.ofList_toList]

end Path

namespace Listing

variable {tree : Tree} {root names : Route} {patterns : List String}

/-! ## What the filter lets through -/

/-- What is listed with patterns is listed without them. -/
theorem accepts_nil_of_accepts {path : String} (h : accepts patterns path = true) :
    accepts [] path = true := by
  have hfewer : ∀ segment, isExcluded [] segment = true → isExcluded patterns segment = true := by
    intro segment hsegment
    simp only [isExcluded, List.any_nil, Bool.or_false] at hsegment
    rw [isExcluded, hsegment, Bool.true_or]
  unfold accepts at h ⊢
  simp only [Bool.and_eq_true, Bool.not_eq_true', List.any_eq_false] at h ⊢
  exact ⟨⟨fun segment hmem hwrong => h.1.1 segment hmem (hfewer segment hwrong), h.1.2⟩, h.2⟩

/-- No name of a listed path is excluded, and no directory on it is hidden. -/
theorem names_of_accepts (hne : names ≠ []) (hslash : ∀ name ∈ names, '/' ∉ name.toList)
    (h : accepts patterns (slashed names) = true) :
    (∀ name ∈ names, name ∉ excludedNames) ∧ ∀ name ∈ names.dropLast, isHidden name = false := by
  have hparts : Path.segments (slashed names) = names := Location.splitString_slashed hne hslash
  unfold accepts at h
  rw [hparts] at h
  simp only [Bool.and_eq_true, Bool.not_eq_true', List.any_eq_false] at h
  obtain ⟨⟨hexcluded, hhidden⟩, -⟩ := h
  constructor
  · intro name hname hmem
    refine hexcluded name hname ?_
    unfold isExcluded
    rw [Bool.or_eq_true]
    exact .inl (List.contains_iff_mem.mpr hmem)
  · intro name hname
    exact Bool.eq_false_iff.mpr (hhidden name hname)

/-- The walk enters every directory of a listed path. -/
theorem isEntered_of_accepts (hne : names ≠ []) (hslash : ∀ name ∈ names, '/' ∉ name.toList)
    (h : accepts patterns (slashed names) = true) : names.dropLast.all isEntered = true := by
  obtain ⟨hexcluded, hhidden⟩ := names_of_accepts hne hslash h
  rw [List.all_eq_true]
  intro name hname
  have hin := List.dropLast_subset _ hname
  have hplain : excludedNames.contains name = false := by
    simpa using hexcluded name hin
  unfold isEntered
  rw [hplain, hhidden name hname]
  rfl

/-! ## What git lists -/

/-- A file that is not in the directory of git itself. -/
def IsProjectFile (tree : Tree) (root names : Route) : Prop :=
  tree.HoldsFile root names ∧ names.head? ≠ some ".git"

/-- The paths of an answer are those of all files outside the directory of git. -/
def Lists (tree : Tree) (root : Route) (output : String) : Prop :=
  ∀ path, path ∈ Git.pathsOf output ↔ ∃ names, IsProjectFile tree root names ∧ path = slashed names

/-- Git fails, or its answer is too long. -/
def IsUseless : Git.Reply → Prop
  | .error _ => True
  | .ok output => maxAnswer < output.length

/-- Git answers with the files of the project, or there is no use in what it does. -/
def IsAnswer (tree : Tree) (root : Route) (reply : Git.Reply) : Prop :=
  IsUseless reply ∨ ∃ output, reply = .ok output ∧ Lists tree root output

/-- A file of the project in a directory that the system lists. -/
def IsInReach (tree : Tree) (root names : Route) : Prop :=
  IsProjectFile tree root names ∧ (Location.ofRoute (root ++ names.dropLast)).IsUsable

/-- A file whose path makes no difference: the walk does not list the path as it stands, and with
slashes in place of the backslashes it is not listed either, unless the walk has it from a file. -/
structure IsHarmless (tree : Tree) (root : Route) (patterns : List String) (names : Route) :
    Prop where
  walk : IsInReach tree root names → accepts patterns (slashed names) = false
  git : accepts patterns (Path.toSlashes (slashed names)) = true →
    ∃ others, IsInReach tree root others ∧ Path.toSlashes (slashed names) = slashed others

theorem paths_of_useless {reply : Git.Reply} (h : IsUseless reply) (tree : Tree) (shell : Shell)
    (patterns : List String) (root : Location) :
    (ofTree tree shell reply patterns root).paths = arrange patterns (walk tree shell root).paths := by
  unfold ofTree gitPaths
  cases reply with
  | error cause => rfl
  | ok output =>
      have hlong : maxAnswer < output.length := h
      dsimp only
      rw [if_pos hlong]

theorem paths_of_output {output : String} (h : ¬ maxAnswer < output.length) (tree : Tree)
    (shell : Shell) (patterns : List String) (root : Location) :
    (ofTree tree shell (.ok output) patterns root).paths =
      arrange patterns ((Git.pathsOf output).map Path.toSlashes) := by
  unfold ofTree gitPaths
  dsimp only
  rw [if_neg h]

section Ordinary

variable (h : tree.IsOrdinary root)

include h

/-- A file of the project has a name, and no name holds a slash. -/
theorem parts_of_holdsFile (hholds : tree.HoldsFile root names) :
    names ≠ [] ∧ ∀ name ∈ names, '/' ∉ name.toList := by
  refine ⟨h.ne_nil_of_holdsFile hholds, fun name hname => ?_⟩
  obtain ⟨bytes, modified, hfind⟩ := hholds
  exact (h.sound.names _ _ hfind name (List.mem_append_right _ hname)).slash

/-- A file that the filter lets through is in no directory of git. -/
theorem not_mem_git_of_accepts (hholds : tree.HoldsFile root names)
    (haccepts : accepts patterns (slashed names) = true) : ".git" ∉ names := by
  obtain ⟨hne, hslash⟩ := parts_of_holdsFile h hholds
  exact fun hgit => (names_of_accepts hne hslash haccepts).1 _ hgit (by decide)

/-- A file that the filter lets through is a file of the project, and the walk comes by it if it is in
reach. -/
theorem isListed_of_accepts (hholds : tree.HoldsFile root names)
    (haccepts : accepts patterns (slashed names) = true) :
    IsProjectFile tree root names ∧ (tree.IsWalked root names ↔ IsInReach tree root names) := by
  obtain ⟨hne, hslash⟩ := parts_of_holdsFile h hholds
  have hfile : IsProjectFile tree root names := ⟨hholds, fun hhead =>
    not_mem_git_of_accepts h hholds haccepts (List.mem_of_mem_head? hhead)⟩
  refine ⟨hfile, fun hwalked => ⟨hfile, hwalked.listed⟩, fun hreach => ?_⟩
  exact ⟨isEntered_of_accepts hne hslash haccepts, hreach.2, hholds⟩

theorem mem_arrange_walk (shell : Shell) (patterns : List String) (path : String) :
    path ∈ arrange patterns (walk tree shell root).paths ↔
      accepts patterns path = true ∧ ∃ names, IsInReach tree root names ∧ path = slashed names := by
  rw [arrange, Text.mem_sortDistinct, List.mem_filter, h.mem_walk, and_comm]
  refine and_congr_right fun haccepts => ?_
  constructor
  · rintro ⟨names, hwalked, rfl⟩
    exact ⟨names, (isListed_of_accepts h hwalked.file haccepts).2.mp hwalked, rfl⟩
  · rintro ⟨names, hreach, rfl⟩
    exact ⟨names, (isListed_of_accepts h hreach.1.1 haccepts).2.mpr hreach, rfl⟩

omit h in
theorem mem_arrange_git {output : String} (hlists : Lists tree root output)
    (patterns : List String) (path : String) :
    path ∈ arrange patterns ((Git.pathsOf output).map Path.toSlashes) ↔
      accepts patterns path = true ∧
        ∃ names, IsProjectFile tree root names ∧ path = Path.toSlashes (slashed names) := by
  rw [arrange, Text.mem_sortDistinct, List.mem_filter, List.mem_map, and_comm]
  refine and_congr_right fun _ => ?_
  constructor
  · rintro ⟨raw, hraw, rfl⟩
    obtain ⟨names, hfile, rfl⟩ := (hlists raw).mp hraw
    exact ⟨names, hfile, rfl⟩
  · rintro ⟨names, hfile, rfl⟩
    exact ⟨_, (hlists _).mpr ⟨names, hfile, rfl⟩, rfl⟩

/-- The two listings have the same members exactly if no path with a backslash and no path out of
reach does harm. -/
theorem arrange_git_eq_iff {output : String} (hlists : Lists tree root output) (shell : Shell)
    (patterns : List String) :
    arrange patterns ((Git.pathsOf output).map Path.toSlashes) =
        arrange patterns (walk tree shell root).paths ↔
      ∀ names, IsProjectFile tree root names →
        ('\\' ∈ (slashed names).toList ∨ ¬ IsInReach tree root names) →
        IsHarmless tree root patterns names := by
  constructor
  · intro heq names hfile hodd
    refine ⟨fun hreach => Bool.eq_false_iff.mpr fun haccepts => ?_, fun haccepts => ?_⟩
    · have hback := hodd.resolve_right fun hnot => hnot hreach
      have hwalk := (mem_arrange_walk h shell patterns _).mpr ⟨haccepts, names, hreach, rfl⟩
      rw [← heq] at hwalk
      obtain ⟨-, others, -, hpath⟩ := (mem_arrange_git hlists patterns _).mp hwalk
      rw [hpath] at hback
      exact Path.not_mem_toSlashes _ hback
    · have hgit := (mem_arrange_git hlists patterns _).mpr ⟨haccepts, names, hfile, rfl⟩
      rw [heq] at hgit
      exact ((mem_arrange_walk h shell patterns _).mp hgit).2
  · intro hharmless
    refine Text.eq_of_mem_iff (Text.pairwise_sortDistinct _) (Text.pairwise_sortDistinct _)
      fun path => ?_
    have hgit := mem_arrange_git hlists patterns path
    have hwalk := mem_arrange_walk h shell patterns path
    rw [hgit, hwalk]
    refine and_congr_right fun haccepts => ?_
    constructor
    · rintro ⟨names, hfile, rfl⟩
      by_cases hodd : '\\' ∈ (slashed names).toList ∨ ¬ IsInReach tree root names
      · exact (hharmless names hfile hodd).git haccepts
      · obtain ⟨hplain, hreach⟩ := not_or.mp hodd
        exact ⟨names, not_not.mp hreach, Path.toSlashes_of_not_mem hplain⟩
    · rintro ⟨names, hreach, rfl⟩
      have hplain : '\\' ∉ (slashed names).toList := fun hback => by
        rw [(hharmless names hreach.1 (.inl hback)).walk hreach] at haccepts
        cases haccepts
      exact ⟨names, hreach.1, (Path.toSlashes_of_not_mem hplain).symm⟩

end Ordinary

/-- Whatever git does, the project has the listing of the walk, except that git's own listing differs
from it exactly if some path with a backslash or out of reach of the walk does harm. -/
theorem paths_eq_walked_iff (h : tree.IsOrdinary root) {reply : Git.Reply}
    (hreply : IsAnswer tree root reply) (shell : Shell) (patterns : List String)
    (cause : Git.Failure) :
    (ofTree tree shell reply patterns root).paths =
        (ofTree tree shell (.error cause) patterns root).paths ↔
      IsUseless reply ∨ ∀ names, IsProjectFile tree root names →
        ('\\' ∈ (slashed names).toList ∨ ¬ IsInReach tree root names) →
        IsHarmless tree root patterns names := by
  have hfailed : IsUseless (.error cause) := trivial
  have hwalk := paths_of_useless hfailed tree shell patterns root
  rw [hwalk]
  by_cases huseless : IsUseless reply
  · exact iff_of_true (paths_of_useless huseless tree shell patterns root) (.inl huseless)
  · obtain ⟨output, rfl, hlists⟩ := hreply.resolve_left huseless
    rw [paths_of_output huseless, arrange_git_eq_iff h hlists shell patterns]
    exact (or_iff_right huseless).symm

/-- A project with a backslash in the name of a file. -/
def backslashTree : Tree :=
  { entries := [(["p"], .directory), (["p", "a.ts"], .file [] .recently),
      (["p", "b\\c.ts"], .file [] .recently)] }

theorem holdsFile_backslashTree {names : Route} :
    backslashTree.HoldsFile ["p"] names ↔ names = ["a.ts"] ∨ names = ["b\\c.ts"] := by
  constructor
  · rintro ⟨bytes, modified, hfind⟩
    have hmem : ("p" :: names, Entry.file bytes modified) ∈ backslashTree.entries :=
      (Tree.lookup_eq_some_iff (by decide)).mp hfind
    simp only [backslashTree, List.mem_cons, Prod.mk.injEq, List.cons.injEq, true_and,
      List.not_mem_nil, or_false] at hmem
    rcases hmem with ⟨-, hentry⟩ | ⟨hnames, -⟩ | ⟨hnames, -⟩
    · cases hentry
    · exact .inl hnames
    · exact .inr hnames
  · rintro (rfl | rfl)
    · exact ⟨[], .recently, by decide⟩
    · exact ⟨[], .recently, by decide⟩

theorem paths_eq_walked_iff_backslash :
    backslashTree.IsOrdinary ["p"] ∧
    IsAnswer backslashTree ["p"] (.ok "a.ts\x00b\\c.ts\x00") ∧
    (ofTree backslashTree ⟨[], []⟩ (.ok "a.ts\x00b\\c.ts\x00") [] ["p"]).paths ≠
      (ofTree backslashTree ⟨[], []⟩ (.error .missing) [] ["p"]).paths := by
  have hordinary : backslashTree.IsOrdinary ["p"] :=
    (Tree.isPlain_of_entries (by decide) (by decide) (by decide)).isOrdinary
  have hfile : IsProjectFile backslashTree ["p"] ["b\\c.ts"] :=
    ⟨holdsFile_backslashTree.mpr (.inr rfl), by decide⟩
  have hpaths : Git.pathsOf "a.ts\x00b\\c.ts\x00" = ["a.ts", "b\\c.ts"] := by decide
  have hanswer : IsAnswer backslashTree ["p"] (.ok "a.ts\x00b\\c.ts\x00") := by
    refine .inr ⟨_, rfl, fun path => ?_⟩
    rw [hpaths]
    constructor
    · intro hmem
      simp only [List.mem_cons, List.not_mem_nil, or_false] at hmem
      rcases hmem with rfl | rfl
      · exact ⟨_, ⟨holdsFile_backslashTree.mpr (.inl rfl), by decide⟩, by decide⟩
      · exact ⟨_, hfile, by decide⟩
    · rintro ⟨names, ⟨hholds, -⟩, rfl⟩
      rcases holdsFile_backslashTree.mp hholds with rfl | rfl <;> decide
  refine ⟨hordinary, hanswer, fun hsame => ?_⟩
  have hharmless := (paths_eq_walked_iff hordinary hanswer ⟨[], []⟩ [] .missing).mp hsame
  have hshort : ¬ IsUseless (.ok "a.ts\x00b\\c.ts\x00") := by
    unfold IsUseless
    decide
  have hreach : IsInReach backslashTree ["p"] ["b\\c.ts"] := ⟨hfile, by decide⟩
  have hnot := (hharmless.resolve_left hshort ["b\\c.ts"] hfile (.inl (by decide))).walk hreach
  have haccepts : accepts [] (slashed ["b\\c.ts"]) = true := by decide
  rw [haccepts] at hnot
  cases hnot

end Listing

end SourceAtlas
