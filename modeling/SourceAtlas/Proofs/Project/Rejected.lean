import SourceAtlas.Proofs.Project.Generation
import SourceAtlas.Proofs.Project.Root
import SourceAtlas.Proofs.Scan.Relocation
import SourceAtlas.Yaml.Document

/-!
# Rejected files

What is generated depends on the files that the filter lets through, and on nothing else in the tree.
So two projects with the same files of this kind have the same documents, and the same scan up to the
root in absolute paths, as long as the system takes the paths of these files under both roots.
-/

namespace SourceAtlas

open Listing

variable {tree before after : Tree} {root place names : Route} {file : SourceFile}
  {patterns : List String} {settings : Settings}

/-- The same files are let through in two projects. -/
def HoldsSame (patterns : List String) (before : Tree) (root : Route) (after : Tree)
    (place : Route) : Prop :=
  ∀ names, accepts patterns (slashed names) = true → ∀ bytes,
    (∃ modified, before.find? (root ++ names) = some (.file bytes modified)) ↔
      ∃ modified, after.find? (place ++ names) = some (.file bytes modified)

/-- Of every file that is let through, the system takes the path under both roots or under neither. -/
def TakesSame (patterns : List String) (tree : Tree) (root place : Route) : Prop :=
  ∀ names, accepts patterns (slashed names) = true → tree.HoldsFile root names →
    ((Location.ofRoute (root ++ names)).IsUsable ↔ (Location.ofRoute (place ++ names)).IsUsable)

theorem HoldsSame.symm (h : HoldsSame patterns before root after place) :
    HoldsSame patterns after place before root :=
  fun names haccepts bytes => (h names haccepts bytes).symm

theorem HoldsSame.holdsFile (h : HoldsSame patterns before root after place)
    (haccepts : accepts patterns (slashed names) = true) (hfile : after.HoldsFile place names) :
    before.HoldsFile root names := by
  obtain ⟨bytes, hbytes⟩ := hfile
  exact ⟨bytes, (h names haccepts bytes).mpr hbytes⟩

theorem TakesSame.symm (h : TakesSame patterns before root place)
    (hsame : HoldsSame patterns before root after place) :
    TakesSame patterns after place root :=
  fun names haccepts hfile => (h names haccepts (hsame.holdsFile haccepts hfile)).symm

namespace Scan

/-- A file that is let through is in the scan exactly if it can be read. -/
theorem mem_files_iff (h : tree.IsOrdinary root) (shell : Shell) (cause : Git.Failure)
    (settings : Settings) (file : SourceFile) :
    file ∈ (ofTree tree shell (.error cause) settings root).files ↔
      ∃ names, accepts settings.excludes (slashed names) = true ∧ Knows tree root names file := by
  rw [mem_files h shell cause settings]
  constructor
  · rintro ⟨names, haccepts, -, hknows⟩
    exact ⟨names, haccepts, hknows⟩
  · rintro ⟨names, haccepts, hknows⟩
    obtain ⟨bytes, modified, hfind, -⟩ := id hknows
    have husable : (Location.ofRoute (root ++ names)).IsUsable := hknows.usable
    obtain ⟨hfile, hwalked⟩ := isListed_of_accepts h ⟨bytes, modified, hfind⟩ haccepts
    have hlisted := husable.of_isPrefix
      ((List.prefix_append_right_inj root).mpr (List.dropLast_prefix names))
    exact ⟨names, haccepts, hwalked.mpr ⟨hfile, hlisted⟩, hknows⟩

/-- A file that is let through is in the scan if the system takes its path. -/
theorem usable_iff_mem_paths (h : tree.IsOrdinary root) (shell : Shell) (cause : Git.Failure)
    (haccepts : accepts settings.excludes (slashed names) = true)
    (hfile : tree.HoldsFile root names) :
    (Location.ofRoute (root ++ names)).IsUsable ↔
      slashed names ∈ (ofTree tree shell (.error cause) settings root).files.map SourceFile.path := by
  obtain ⟨bytes, modified, hfind⟩ := hfile
  rw [List.mem_map]
  constructor
  · intro husable
    exact ⟨_, (mem_files_iff h shell cause settings _).mpr
      ⟨names, haccepts, bytes, modified, hfind, husable, rfl⟩, rfl⟩
  · rintro ⟨file, hfile, hpath⟩
    obtain ⟨others, -, hknows⟩ := (mem_files_iff h shell cause settings file).mp hfile
    have hnames : ∀ name ∈ names, IsName name := fun name hname =>
      h.sound.names _ _ hfind name (List.mem_append_right _ hname)
    rw [hknows.path] at hpath
    obtain rfl := Location.slashed_inj (hknows.isName h.sound) hnames hpath
    exact hknows.usable

/-- A file is known under both roots alike. -/
theorem Knows.under (h : Knows before root names file) (hsound : before.IsSound)
    (haccepts : accepts patterns (slashed names) = true)
    (hsame : HoldsSame patterns before root after place)
    (htakes : TakesSame patterns before root place) : Knows after place names (file.under place) := by
  have hnames := h.isName hsound
  obtain ⟨bytes, modified, hfind, husable, rfl⟩ := h
  obtain ⟨since, hthere⟩ := (hsame names haccepts bytes).mp ⟨modified, hfind⟩
  refine ⟨bytes, since, hthere, ?_, ?_⟩
  · exact (htakes names haccepts ⟨bytes, modified, hfind⟩).mp husable
  · unfold SourceFile.under SourceFile.ofBytes
    dsimp only
    rw [Location.child_slashed hnames]

theorem Knows.under_self (h : Knows before root names file) (hsound : before.IsSound) :
    file.under root = file := by
  have hlocation := h.location
  rw [← Location.child_slashed (h.isName hsound), ← h.path] at hlocation
  unfold SourceFile.under
  rw [← hlocation]

/-- The tag of a known file is read from its bytes. -/
theorem Knows.tagAt? (h : Knows tree root names file) (hsound : tree.IsSound) (shell : Shell)
    {bytes : List UInt8} {modified : Modified}
    (hfind : tree.find? (root ++ names) = some (.file bytes modified)) :
    tree.tagAt? shell (.ofText file.location) =
      (Tag.find? (Text.translateNewlines (Text.Utf8.decodeReplacing bytes))).map String.ofList := by
  have husable := h.usable
  have hread : tree.readBytes shell (.ofText file.location) = .ok bytes := by
    rw [h.location, Location.ofText_text_ofRoute (h.isName_route hsound)]
    rcases hsound.readBytes_file hfind shell with ⟨-, hread⟩ | ⟨hlong, -⟩
    · exact hread
    · exact absurd husable hlong
  unfold Tree.tagAt? Tree.readLenient
  rw [hread]
  rfl

section Two

variable (hbefore : before.IsOrdinary root) (hafter : after.IsOrdinary place)
  (hsame : HoldsSame settings.excludes before root after place)
  (htakes : TakesSame settings.excludes before root place) (shell other : Shell)
  (cause reason : Git.Failure)

include hbefore hafter hsame htakes

theorem files_under :
    (ofTree after other (.error reason) settings place).files =
      (ofTree before shell (.error cause) settings root).files.map (.under place) := by
  refine Ascends.eq_of_mem_iff (pairwise_files ..)
    (List.Pairwise.map _ (fun _ _ hlt => hlt) (pairwise_files ..)) fun file => ?_
  rw [mem_files_iff hafter, List.mem_map]
  constructor
  · rintro ⟨names, haccepts, hknows⟩
    refine ⟨file.under root, ?_, ?_⟩
    · rw [mem_files_iff hbefore]
      exact ⟨names, haccepts, hknows.under hafter.sound haccepts hsame.symm (htakes.symm hsame)⟩
    · exact hknows.under_self hafter.sound
  · rintro ⟨known, hknown, rfl⟩
    obtain ⟨names, haccepts, hknows⟩ := (mem_files_iff hbefore ..).mp hknown
    exact ⟨names, haccepts, hknows.under hbefore.sound haccepts hsame htakes⟩

/-- The tag that a file carries is the same under both roots. -/
theorem tagAt?_under (hfile : file ∈ (ofTree before shell (.error cause) settings root).files) :
    after.tagAt? other (.ofText (file.under place).location) =
      before.tagAt? shell (.ofText file.location) := by
  obtain ⟨names, haccepts, hknows⟩ := (mem_files_iff hbefore ..).mp hfile
  have hunder := hknows.under hbefore.sound haccepts hsame htakes
  obtain ⟨bytes, modified, hfind, -⟩ := id hknows
  obtain ⟨since, hthere⟩ := (hsame names haccepts bytes).mp ⟨modified, hfind⟩
  rw [hknows.tagAt? hbefore.sound shell hfind, hunder.tagAt? hafter.sound other hthere]

theorem domains_under :
    (ofTree after other (.error reason) settings place).domains =
      (ofTree before shell (.error cause) settings root).domains.map
        (Domain.mapFiles (.under place)) := by
  change Domain.infer _ _ (ofTree after other (.error reason) settings place).files = _
  rw [files_under hbefore hafter hsame htakes shell other cause reason,
    Domain.infer_map (keepsShape_under place)]
  rfl

/-- The documents of the files are the same. -/
theorem text_under (page : Page) (project : String) :
    page.text project (ofTree after other (.error reason) settings place).summary =
      page.text project (ofTree before shell (.error cause) settings root).summary := by
  rw [summary_ofTree, summary_ofTree,
    files_under hbefore hafter hsame htakes shell other cause reason,
    Page.text_map (keepsShape_under place) (lineCount_under place)]

end Two

end Scan

/-! ## Flat projects -/

namespace flatTree

variable {files others : List (String × List UInt8)}

/-- Flat projects hold the same files if those that are let through are the same. -/
theorem holdsSame (hfiles : (files.map Prod.fst).Nodup) (hothers : (others.map Prod.fst).Nodup)
    (h : files.filter (fun item => accepts patterns item.1) =
      others.filter fun item => accepts patterns item.1) :
    HoldsSame patterns (flatTree root files) root (flatTree place others) place := by
  intro names haccepts bytes
  rw [find?_file_iff hfiles, find?_file_iff hothers]
  refine exists_congr fun name => and_congr_right fun hname => ?_
  have hpath : accepts patterns name = true := by
    rw [hname] at haccepts
    simpa [slashed] using haccepts
  have hmem : ∀ items : List (String × List UInt8), (name, bytes) ∈ items ↔
      (name, bytes) ∈ items.filter fun item => accepts patterns item.1 := by
    intro items
    rw [List.mem_filter]
    exact (and_iff_left hpath).symm
  rw [hmem files, h, ← hmem others]

end flatTree

namespace Project

/-- What is generated is the same up to the root in absolute paths. -/
structure SameUnder (first second : Generation) : Prop where
  files : second.scan.files = first.scan.files.map (.under second.root)
  totalLines : second.scan.totalLines = first.scan.totalLines
  languages : Scan.languageCounts second.scan.files = Scan.languageCounts first.scan.files
  dependencies : second.scan.dependencies = first.scan.dependencies
  domains : second.scan.domains = first.scan.domains.map (Domain.mapFiles (.under second.root))
  tags : second.scan.tags = first.scan.tags.map (.under second.root)
  overview : second.overview = first.overview
  index : second.index = first.index

theorem sameUnder_ofTree (hbefore : before.IsOrdinary root) (hafter : after.IsOrdinary place)
    (hname : nameOf root = nameOf place)
    (hsame : HoldsSame settings.excludes before root after place)
    (htakes : TakesSame settings.excludes before root place) (shell other : Shell)
    (cause reason : Git.Failure) :
    SameUnder (.ofTree before shell (.error cause) settings root)
      (.ofTree after other (.error reason) settings place) := by
  have hfiles := Scan.files_under hbefore hafter hsame htakes shell other cause reason
  have hdomains := Scan.domains_under hbefore hafter hsame htakes shell other cause reason
  have htexts := Scan.text_under hbefore hafter hsame htakes shell other cause reason
  refine ⟨hfiles, ?_, ?_, ?_, hdomains, ?_, ?_, ?_⟩
  · change totalLineCount (Scan.ofTree after other (.error reason) settings place).files = _
    rw [hfiles, Page.totalLineCount_map fun file => (lineCount_under place file)]
    rfl
  · change Scan.languageCounts (Scan.ofTree after other (.error reason) settings place).files = _
    rw [hfiles, Page.languageCounts_map (keepsShape_under place)]
    rfl
  · change Dependency.graph _ (Scan.ofTree after other (.error reason) settings place).files = _
    rw [hfiles, Dependency.graph_map (keepsShape_under place)]
    rfl
  · change InlineTag.proposals _ [] (Scan.ofTree after other (.error reason) settings place).domains
      _ (Scan.ofTree after other (.error reason) settings place).files = _
    rw [hfiles, hdomains]
    exact InlineTag.proposals_under _ _ fun file hfile =>
      Scan.tagAt?_under hbefore hafter hsame htakes shell other cause hfile
  · rw [overview_eq, overview_eq, ← hname, htexts]
  · rw [index_eq, index_eq, ← hname, htexts]

theorem takesSame_of_sameUnder (hbefore : before.IsOrdinary root) (hafter : after.IsOrdinary place)
    (hsame : HoldsSame settings.excludes before root after place) {shell other : Shell}
    {cause reason : Git.Failure}
    (h : SameUnder (.ofTree before shell (.error cause) settings root)
      (.ofTree after other (.error reason) settings place)) :
    TakesSame settings.excludes before root place := by
  intro names haccepts hfile
  have hthere := hsame.symm.holdsFile haccepts hfile
  have hfiles : (Scan.ofTree after other (.error reason) settings place).files =
      (Scan.ofTree before shell (.error cause) settings root).files.map (.under place) := h.files
  rw [Scan.usable_iff_mem_paths hbefore shell cause haccepts hfile,
    Scan.usable_iff_mem_paths hafter other reason haccepts hthere, hfiles, List.map_map]
  rfl

/-- Files that the filter rejects decide nothing in what is generated: where two projects are
generated, it is the same exactly if the system takes the paths of the others under both roots. -/
theorem generate_sameUnder [Yaml.Reader] {shell other : Shell} {path target : String}
    (hbefore : before.IsOrdinary root) (hafter : after.IsOrdinary place)
    (hroot : Project.root before shell path = .ok root)
    (hplace : Project.root after other target = .ok place) (hname : nameOf root = nameOf place)
    (hsame : HoldsSame settings.excludes before root after place) {cause reason : Git.Failure}
    {first second : Generation}
    (hfirst : generate before shell (.error cause) path (some settings) = .ok first)
    (hsecond : generate after other (.error reason) target (some settings) = .ok second) :
    SameUnder first second ↔ TakesSame settings.excludes before root place := by
  rw [generate_eq hroot] at hfirst
  rw [generate_eq hplace] at hsecond
  cases hfirst
  cases hsecond
  refine ⟨takesSame_of_sameUnder hbefore hafter hsame, fun htakes => ?_⟩
  exact sameUnder_ofTree hbefore hafter hname hsame htakes shell other cause reason

/-- Projects with one file in common, and one of them with notes beside it. -/
theorem generate_sameUnder_notes :
    ∃ first second,
      generate (flatTree ["p"] [("a.ts", [64])]) ⟨[], []⟩ (.error .missing)
        (Location.ofRoute ["p"]).text (some .standard) = .ok first ∧
      generate (flatTree ["q", "p"] [("notes.txt", [65]), ("a.ts", [64])]) ⟨[], []⟩
        (.error .missing) (Location.ofRoute ["q", "p"]).text (some .standard) = .ok second ∧
      (SameUnder first second ↔
        TakesSame Settings.standard.excludes (flatTree ["p"] [("a.ts", [64])]) ["p"] ["q", "p"]) := by
  have hbefore : (flatTree ["p"] [("a.ts", [64])]).IsOrdinary ["p"] :=
    flatTree.isOrdinary (by decide) (by decide) (by decide)
  have hafter : (flatTree ["q", "p"] [("notes.txt", [65]), ("a.ts", [64])]).IsOrdinary ["q", "p"] :=
    flatTree.isOrdinary (by decide) (by decide) (by decide)
  have hroot := root_text_ofRoute hbefore.sound hbefore.directory (by decide) ⟨[], []⟩
  have hplace := root_text_ofRoute hafter.sound hafter.directory (by decide) ⟨[], []⟩
  have hfirst : generate _ _ (.error .missing) _ _ = .ok _ := generate_eq hroot .standard
  have hsecond : generate _ _ (.error .missing) _ _ = .ok _ := generate_eq hplace .standard
  exact ⟨_, _, hfirst, hsecond, generate_sameUnder hbefore hafter hroot hplace rfl
    (flatTree.holdsSame (by decide) (by decide) (by decide)) hfirst hsecond⟩

/-! ## A file at the limit of a path -/

theorem nameOf_farRoot : nameOf farRoot = "p" := by
  unfold nameOf farRoot Location.ofRoute
  rw [List.getLast?_concat]
  rfl

/-- The same file, but under a root that its path is too long with. -/
theorem not_sameUnder_farRoot :
    HoldsSame Settings.standard.excludes (flatTree ["p"] [("a.ts", [])]) ["p"]
        (flatTree farRoot [("a.ts", [])]) farRoot ∧
      nameOf ["p"] = nameOf farRoot ∧
      ∃ first second,
        generate (flatTree ["p"] [("a.ts", [])]) ⟨[], []⟩ (.error .missing)
          (Location.ofRoute ["p"]).text (some .standard) = .ok first ∧
        generate (flatTree farRoot [("a.ts", [])]) ⟨[], []⟩ (.error .missing)
          (Location.ofRoute farRoot).text (some .standard) = .ok second ∧
        ¬ SameUnder first second := by
  have hfiles : (([("a.ts", [])] : List (String × List UInt8)).map Prod.fst).Nodup := by decide
  have hbefore : (flatTree ["p"] [("a.ts", [])]).IsOrdinary ["p"] :=
    flatTree.isOrdinary hfiles (by decide) (by decide)
  have hafter : (flatTree farRoot [("a.ts", [])]).IsOrdinary farRoot :=
    flatTree.isOrdinary hfiles isName_farRoot (by decide)
  have husable : (Location.ofRoute farRoot).IsUsable := by
    rw [← List.append_nil farRoot, isUsable_farRoot_append_iff (by decide)]
    decide
  have hsame : HoldsSame Settings.standard.excludes (flatTree ["p"] [("a.ts", [])]) ["p"]
      (flatTree farRoot [("a.ts", [])]) farRoot := flatTree.holdsSame hfiles hfiles rfl
  refine ⟨hsame, nameOf_farRoot.symm, _, _,
    generate_eq (root_text_ofRoute hbefore.sound hbefore.directory (by decide) _) .standard,
    generate_eq (root_text_ofRoute hafter.sound hafter.directory husable _) .standard, fun h => ?_⟩
  have htakes := takesSame_of_sameUnder hbefore hafter hsame h ["a.ts"] rfl
    ⟨[], (flatTree.find?_file_iff hfiles).mpr ⟨"a.ts", rfl, List.mem_singleton_self _⟩⟩
  rw [isUsable_farRoot_append_iff (by decide)] at htakes
  exact absurd (htakes.mp (by decide)) (by decide)

end Project

end SourceAtlas
