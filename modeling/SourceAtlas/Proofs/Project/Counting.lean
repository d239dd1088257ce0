import SourceAtlas.Project.Status
import SourceAtlas.Proofs.Listing.Git
import SourceAtlas.Proofs.Tag.Reading
import SourceAtlas.Proofs.Text.Utf8

/-!
# Counting tags

Without git the listed files are read and the tagged ones are counted. With git only the files are
read whose bytes hold the marker. The numbers agree: whatever the other bytes of a file are, a tag is
read from the bytes of its marker.
-/

namespace SourceAtlas.TagCount

open Listing

variable {tree : Tree} {shell : Shell} {root names : Route} {path output : String}

/-! ## The files that count -/

/-- The bytes of a file are read as a text with a tag. -/
def HoldsTag (bytes : List UInt8) : Prop :=
  (Tag.find? (Text.translateNewlines (Text.Utf8.decodeReplacing bytes))).isSome = true

/-- A listed file that can be read and carries a tag. -/
structure IsCounted (tree : Tree) (root names : Route) : Prop where
  accepted : accepts [] (slashed names) = true
  taggable : isTaggable (slashed names) = true
  usable : (Location.ofRoute (root ++ names)).IsUsable
  tagged : ∃ bytes modified, tree.find? (root ++ names) = some (.file bytes modified) ∧
    HoldsTag bytes

theorem isTagged_iff (hsound : tree.IsSound) (shell : Shell) {bytes : List UInt8}
    {modified : Modified} (hfind : tree.find? (root ++ names) = some (.file bytes modified)) :
    isTagged tree shell root (slashed names) = true ↔ isTaggable (slashed names) = true ∧
      (Location.ofRoute (root ++ names)).IsUsable ∧ HoldsTag bytes := by
  have hnames : ∀ name ∈ names, IsName name := fun name hname =>
    hsound.names _ _ hfind name (List.mem_append_right _ hname)
  unfold isTagged Tree.tagAt? Tree.readLenient HoldsTag
  rw [Bool.and_eq_true, Location.child_slashed hnames]
  refine and_congr_right fun _ => ?_
  rcases hsound.readBytes_file hfind shell with ⟨husable, hread⟩ | ⟨hlong, failure, hread⟩
  · rw [hread, Option.isSome_map]
    exact (and_iff_right husable).symm
  · rw [hread]
    exact iff_of_false nofun fun h => hlong h.1

/-- A project file that is listed and tagged counts. -/
theorem isCounted_iff (hsound : tree.IsSound) (shell : Shell) (hfile : tree.HoldsFile root names) :
    accepts [] (slashed names) = true ∧ isTagged tree shell root (slashed names) = true ↔
      IsCounted tree root names := by
  obtain ⟨bytes, modified, hfind⟩ := hfile
  rw [isTagged_iff hsound shell hfind]
  constructor
  · rintro ⟨haccepts, htaggable, husable, htag⟩
    exact ⟨haccepts, htaggable, husable, bytes, modified, hfind, htag⟩
  · rintro ⟨haccepts, htaggable, husable, others, since, hfound, htag⟩
    rw [hfind] at hfound
    cases hfound
    exact ⟨haccepts, htaggable, husable, htag⟩

theorem IsCounted.holdsFile (h : IsCounted tree root names) : tree.HoldsFile root names := by
  obtain ⟨bytes, modified, hfind, -⟩ := h.tagged
  exact ⟨bytes, modified, hfind⟩

theorem IsCounted.congr {before after : Tree} (h : IsCounted before root names)
    (hfind : after.find? (root ++ names) = before.find? (root ++ names)) :
    IsCounted after root names where
  accepted := h.accepted
  taggable := h.taggable
  usable := h.usable
  tagged := hfind ▸ h.tagged

/-- The tagged paths of a project that is walked. -/
def counted (tree : Tree) (shell : Shell) (root : Location) : List String :=
  (arrange [] (walk tree shell root).paths).filter (isTagged tree shell root)

theorem mem_counted (h : tree.IsOrdinary root) (shell : Shell) :
    path ∈ counted tree shell root ↔ ∃ names, IsCounted tree root names ∧ path = slashed names := by
  rw [counted, List.mem_filter, mem_arrange_walk h]
  constructor
  · rintro ⟨⟨haccepts, names, hreach, rfl⟩, htagged⟩
    exact ⟨names, (isCounted_iff h.sound shell hreach.1.1).mp ⟨haccepts, htagged⟩, rfl⟩
  · rintro ⟨names, hcounted, rfl⟩
    have hfile := hcounted.holdsFile
    obtain ⟨haccepts, htagged⟩ := (isCounted_iff h.sound shell hfile).mpr hcounted
    have hlisted := hcounted.usable.of_isPrefix
      (List.prefix_append_right_inj root |>.mpr (List.dropLast_prefix names))
    exact ⟨⟨haccepts, names, ⟨(isListed_of_accepts h hfile haccepts).1, hlisted⟩, rfl⟩, htagged⟩

theorem nodup_counted (tree : Tree) (shell : Shell) (root : Location) :
    (counted tree shell root).Nodup :=
  ((Text.pairwise_sortDistinct _).imp ne_of_lt).filter _

/-! ## What git finds -/

/-- A file with the marker of tags in its bytes. -/
def HasMarker (tree : Tree) (root names : Route) : Prop :=
  ∃ bytes modified, tree.find? (root ++ names) = some (.file bytes modified) ∧
    Text.Utf8.encode Tag.marker.toList <:+: bytes

/-- The bytes of a file that counts hold the marker. -/
theorem IsCounted.hasMarker (h : IsCounted tree root names) : HasMarker tree root names := by
  obtain ⟨bytes, modified, hfind, htag⟩ := h.tagged
  exact ⟨bytes, modified, hfind, Text.Utf8.encode_isInfix (by decide) (Tag.marker_isInfix htag)⟩

/-- An answer to the search names files with the marker, each once, and it leaves out none that is
outside the directory of git. -/
structure Finds (tree : Tree) (root : Route) (output : String) : Prop where
  once : (Git.pathsOf output).Nodup
  sound : ∀ path ∈ Git.pathsOf output, ∃ names, HasMarker tree root names ∧ path = slashed names
  complete : ∀ names, HasMarker tree root names → ".git" ∉ names →
    slashed names ∈ Git.pathsOf output

/-- Git finds the files with the marker, or it says that there are none. -/
def IsSearched (tree : Tree) (root : Route) (reply : Git.Reply) : Prop :=
  (∃ output, reply = .ok output ∧ Finds tree root output) ∨
    (reply = .error (.exited 1) ∧ ∀ names, HasMarker tree root names → ".git" ∈ names)

/-- Git neither lists nor searches. -/
def IsUnavailable (git : Git.Replies) : Prop :=
  IsUseless git.listing ∧
    ∃ cause, git.search = .error cause ∧ cause ≠ .exited 1 ∧ cause ≠ .timedOut

theorem ofTree_of_unavailable {git : Git.Replies} (h : IsUnavailable git) (tree : Tree)
    (shell : Shell) (root : Location) :
    ∃ count, ofTree tree shell git root = .ok count ∧
      count.count = (counted tree shell root).length := by
  obtain ⟨hlisting, cause, hcause, hexited, htimed⟩ := h
  have hpaths := paths_of_useless hlisting tree shell [] root
  refine ⟨⟨amongListed tree shell root (Listing.ofTree tree shell git.listing [] root),
    some (cause, Listing.ofTree tree shell git.listing [] root)⟩, ?_, ?_⟩
  · unfold ofTree
    rw [hcause]
    split
    · next heq => cases heq
    · next heq => cases heq; exact absurd rfl hexited
    · next heq => cases heq; exact absurd rfl htimed
    · next heq => cases heq; rfl
  · dsimp only
    rw [amongListed, hpaths, counted]

theorem mem_found (h : tree.IsOrdinary root) (hfinds : Finds tree root output) (shell : Shell) :
    path ∈ ((Git.pathsOf output).filter fun path =>
        accepts [] path && isTagged tree shell root path) ↔
      ∃ names, IsCounted tree root names ∧ path = slashed names := by
  rw [List.mem_filter, Bool.and_eq_true]
  constructor
  · rintro ⟨hmem, hboth⟩
    obtain ⟨names, ⟨bytes, modified, hfind, -⟩, rfl⟩ := hfinds.sound path hmem
    exact ⟨names, (isCounted_iff h.sound shell ⟨bytes, modified, hfind⟩).mp hboth, rfl⟩
  · rintro ⟨names, hcounted, rfl⟩
    have hgit := not_mem_git_of_accepts h hcounted.holdsFile hcounted.accepted
    exact ⟨hfinds.complete names hcounted.hasMarker hgit,
      (isCounted_iff h.sound shell hcounted.holdsFile).mpr hcounted⟩

/-- Searching with git and reading the listed files come to the same number. -/
theorem count_eq_walked (h : tree.IsOrdinary root) {listing search : Git.Reply}
    (hsearch : IsSearched tree root search) {git : Git.Replies} (hgit : IsUnavailable git)
    (shell : Shell) :
    ∃ found walked, ofTree tree shell ⟨listing, search⟩ root = .ok found ∧
      ofTree tree shell git root = .ok walked ∧ found.count = walked.count := by
  obtain ⟨walked, hwalked, hcount⟩ := ofTree_of_unavailable hgit tree shell root
  rcases hsearch with ⟨output, rfl, hfinds⟩ | ⟨rfl, hnone⟩
  · refine ⟨⟨amongFound tree shell root output, none⟩, walked, rfl, hwalked, ?_⟩
    rw [hcount]
    refine List.Perm.length_eq ((List.perm_ext_iff_of_nodup (hfinds.once.filter _)
      (nodup_counted tree shell root)).mpr fun path => ?_)
    rw [mem_found h hfinds, mem_counted h]
  · refine ⟨⟨0, none⟩, walked, rfl, hwalked, ?_⟩
    have hempty : counted tree shell root = [] := by
      rw [List.eq_nil_iff_forall_not_mem]
      intro path hpath
      obtain ⟨names, hnames, -⟩ := (mem_counted h shell).mp hpath
      have hgit := hnone names hnames.hasMarker
      exact not_mem_git_of_accepts h hnames.holdsFile hnames.accepted hgit
    rw [hcount, hempty, List.length_nil]

/-- A project with a tagged file, and one that is no text and mentions the marker. -/
def markedTree : Tree :=
  { entries := [(["p"], .directory),
      (["p", "a.ts"], .file (Text.Utf8.encode "// @atlas-entrypoint: A - b\n".toList) .recently),
      (["p", "b.ts"], .file (255 :: Text.Utf8.encode "@atlas-entrypoint:".toList) .recently)] }

theorem finds_markedTree : Finds markedTree ["p"] "b.ts\x00a.ts\x00" := by
  have hpaths : Git.pathsOf "b.ts\x00a.ts\x00" = ["b.ts", "a.ts"] := by decide +kernel
  constructor
  · rw [hpaths]
    decide
  · rw [hpaths]
    intro path hpath
    simp only [List.mem_cons, List.not_mem_nil, or_false] at hpath
    rcases hpath with rfl | rfl
    · refine ⟨["b.ts"], ⟨_, .recently, rfl, [255], [], ?_⟩, by decide +kernel⟩
      decide +kernel
    · refine ⟨["a.ts"], ⟨_, .recently, rfl, [47, 47, 32],
        Text.Utf8.encode " A - b\n".toList, ?_⟩, by decide +kernel⟩
      decide +kernel
  · rw [hpaths]
    rintro names ⟨bytes, modified, hfind, -⟩ -
    have hmem : ("p" :: names, Entry.file bytes modified) ∈ markedTree.entries :=
      (Tree.lookup_eq_some_iff (by decide)).mp hfind
    simp only [markedTree, List.mem_cons, Prod.mk.injEq, List.cons.injEq, true_and,
      List.not_mem_nil, or_false] at hmem
    rcases hmem with ⟨-, hentry⟩ | ⟨rfl, -⟩ | ⟨rfl, -⟩
    · cases hentry
    · decide +kernel
    · decide +kernel

theorem count_eq_walked_marked :
    markedTree.IsOrdinary ["p"] ∧ IsSearched markedTree ["p"] (.ok "b.ts\x00a.ts\x00") ∧
      ∃ found walked,
        ofTree markedTree ⟨[], []⟩ ⟨.error .missing, .ok "b.ts\x00a.ts\x00"⟩ ["p"] = .ok found ∧
        ofTree markedTree ⟨[], []⟩ ⟨.error .missing, .error .missing⟩ ["p"] = .ok walked ∧
        found.count = walked.count := by
  have hordinary : markedTree.IsOrdinary ["p"] :=
    (Tree.isPlain_of_entries (by decide) (by decide) (by decide)).isOrdinary
  have hsearched : IsSearched markedTree ["p"] (.ok "b.ts\x00a.ts\x00") :=
    .inl ⟨_, rfl, finds_markedTree⟩
  have hunavailable : IsUnavailable ⟨.error .missing, .error .missing⟩ :=
    ⟨trivial, .missing, rfl, by decide, by decide⟩
  exact ⟨hordinary, hsearched, count_eq_walked hordinary hsearched hunavailable ⟨[], []⟩⟩

end SourceAtlas.TagCount
