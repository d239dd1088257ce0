import Mathlib.Algebra.BigOperators.Ring.Finset
import SourceAtlas.Proofs.Dependency.Edges
import SourceAtlas.Proofs.Domain.Names
import SourceAtlas.Proofs.Listing.Git
import SourceAtlas.Proofs.Project.Generation
import SourceAtlas.Proofs.Scan.Tags
import SourceAtlas.Yaml.Document

/-!
# Scans are closed

No stage of a scan invents, loses or doubles a file: the counts agree, every dependency and every
tag is about listed files, and a tag names the one domain of its file. A domain can be without a
name, then the tag names the layer of its file; this takes a listed path with an empty segment.
-/

namespace SourceAtlas

/-- What a tag calls a file in a domain. -/
abbrev Labels := Domain → SourceFile → String

/-- The name of the domain. -/
def Domain.label : Labels := fun domain _ => domain.name

/-- The name of the domain, or of the layer of the file if the domain has none. -/
def Domain.labelOrLayer : Labels := fun domain file =>
  if domain.name = "" then file.layer.name else domain.name

namespace Scan

/-- A tag is for a file of the scan and carries the label of the file in its one domain. -/
structure Carries (scan : Scan) (label : Labels) (tag : InlineTag) (file : SourceFile) : Prop where
  path : tag.path = file.path
  location : tag.location = file.location
  line : ∃ comment, file.language.lineComment? = some comment ∧
    ∃ place : Fin scan.domains.length,
      (∀ other, file ∈ (scan.domains.get other).files ↔ other = place) ∧
      tag.suggested = .ofString (comment ++ " " ++ Tag.marker ++ " " ++
        label (scan.domains.get place) file ++ InlineTag.layerLabel file.layer ++ " - " ++
        tag.reason)

/-- The parts of a scan agree, and they are about its files only. -/
structure IsClosed (scan : Scan) (label : Labels) (limit : Nat) : Prop where
  ascends : Ascends scan.files
  totalFiles : scan.summary.totalFiles = scan.files.length
  languageFiles : (scan.summary.languages.map Prod.snd).sum = scan.summary.totalFiles
  domainFiles : ((scan.domains.map fun domain => domain.files.length).sum : Nat) =
    scan.summary.totalFiles
  totalLines : scan.summary.totalLines = (scan.files.map (·.lineCount)).sum
  domainLines : ((scan.domains.map fun domain => (domain.files.map (·.lineCount)).sum).sum : Nat) =
    scan.summary.totalLines
  edges : ∀ edge ∈ scan.dependencies, edge.source ≠ edge.target ∧
    (∃ file ∈ scan.files, file.path = edge.source) ∧ ∃ file ∈ scan.files, file.path = edge.target
  edgesOnce : (scan.dependencies.map Dependency.ends).Nodup
  tags : ∀ tag ∈ scan.tags, ∃ file ∈ scan.files, scan.Carries label tag file
  tagsOnce : (scan.tags.map (·.path)).Nodup
  tagCount : scan.tags.length ≤ limit

variable {files : List SourceFile} {domains : List Domain} {file : SourceFile}

/-! ## Counts -/

theorem totalLineCount_eq_sum (files : List SourceFile) :
    totalLineCount files = (files.map (·.lineCount)).sum := by
  rw [totalLineCount, List.sum, List.foldr_map]

theorem sum_languageCounts (files : List SourceFile) :
    ((languageCounts files).map Prod.snd).sum = files.length := by
  have hcounts : (languageCounts files).map Prod.snd =
      ((classes (fun file => file.language.name) files).map List.length).map Nat.cast := by
    unfold languageCounts classes
    rw [List.map_map, List.map_map, List.map_map]
    rfl
  rw [hcounts, ← Nat.cast_list_sum, ← List.length_flatten, (flatten_classes_perm _ files).length_eq]

/-- What is counted file by file comes out the same domain by domain. -/
theorem sum_domains (h : (domains.flatMap (·.files)).Perm files) (count : SourceFile → Nat) :
    (domains.map fun domain => (domain.files.map count).sum).sum = (files.map count).sum := by
  rw [← (h.map count).sum_eq, List.map_flatMap, List.flatMap_def, List.sum_flatten, List.map_map]
  rfl

theorem sum_domains_length (h : (domains.flatMap (·.files)).Perm files) :
    (domains.map fun domain => domain.files.length).sum = files.length := by
  rw [← h.length_eq, List.length_flatMap]

/-! ## Labels -/

/-- The first domain with the path of a file is the one with the file. -/
theorem domainName?_eq (hascends : Ascends files) (h : (domains.flatMap (·.files)).Perm files)
    (hfile : file ∈ files) {place : Fin domains.length}
    (hplace : ∀ other, file ∈ (domains.get other).files ↔ other = place) :
    InlineTag.domainName? domains file.path = some (domains.get place).name := by
  -- No two files have the same path, so the domain with the path has the file.
  have hmember : ∀ domain ∈ domains, file.path ∈ domain.paths → file ∈ domain.files := by
    intro domain hdomain hpath
    obtain ⟨other, hother, hsame⟩ := List.mem_map.mp hpath
    have hmem : other ∈ files := h.mem_iff.mp (List.mem_flatMap.mpr ⟨domain, hdomain, hother⟩)
    obtain rfl := List.inj_on_of_nodup_map hascends.nodup hmem hfile hsame
    exact hother
  unfold InlineTag.domainName?
  have hfound : (domains.find? fun domain => domain.paths.contains file.path).isSome := by
    rw [List.find?_isSome]
    refine ⟨_, domains.get_mem place, List.contains_iff_mem.mpr ?_⟩
    exact List.mem_map_of_mem ((hplace place).mpr rfl)
  obtain ⟨domain, hdomain⟩ := Option.isSome_iff_exists.mp hfound
  have hmem := List.mem_of_find?_eq_some hdomain
  have hpath := List.find?_some hdomain
  obtain ⟨other, rfl⟩ := List.get_of_mem hmem
  rw [hdomain, (hplace other).mp (hmember _ hmem (List.contains_iff_mem.mp hpath))]
  rfl

variable (tree : Tree) (shell : Shell) (reply : Git.Reply) (settings : Settings) (root : Location)

theorem domains_perm :
    ((ofTree tree shell reply settings root).domains.flatMap (·.files)).Perm
      (ofTree tree shell reply settings root).files :=
  Domain.flatMap_files_perm (Domain.map_files_infer settings.threshold settings.sensitivity _)

variable {tree shell reply settings root} in
theorem carries_of_mem_tags {tag : InlineTag}
    (h : tag ∈ (ofTree tree shell reply settings root).tags) :
    ∃ file ∈ (ofTree tree shell reply settings root).files,
      (ofTree tree shell reply settings root).Carries Domain.labelOrLayer tag file := by
  obtain ⟨file, hfile, hcandidate, -, rfl⟩ := exists_of_mem_tags h
  refine ⟨file, hfile, rfl, rfl, ?_⟩
  rw [RankedFile.isCandidate, Bool.and_eq_true] at hcandidate
  obtain ⟨comment, hcomment⟩ := Option.isSome_iff_exists.mp hcandidate.1
  obtain ⟨place, hin, honly⟩ := Domain.existsUnique_place
    (Domain.map_files_infer settings.threshold settings.sensitivity _) hfile
  have hplace : ∀ other, file ∈
      ((ofTree tree shell reply settings root).domains.get other).files ↔ other = place :=
    fun other => ⟨honly other, fun hsame => hsame ▸ hin⟩
  refine ⟨comment, hcomment, place, hplace, ?_⟩
  have hname := domainName?_eq (pairwise_files tree shell reply settings root)
    (domains_perm tree shell reply settings root) hfile hplace
  have hlabel : InlineTag.placeLabel (some
      ((ofTree tree shell reply settings root).domains.get place).name) file.layer =
      Domain.labelOrLayer ((ofTree tree shell reply settings root).domains.get place) file := by
    simp [InlineTag.placeLabel, Domain.labelOrLayer]
  change Text.Draft.ofString (InlineTag.suggestion file (InlineTag.domainName? _ file.path) _) = _
  rw [hname, InlineTag.suggestion, hcomment, hlabel]
  rfl

/-- A scan is closed, whatever is listed. -/
theorem isClosed_ofTree :
    (ofTree tree shell reply settings root).IsClosed Domain.labelOrLayer settings.maxTags where
  ascends := pairwise_files tree shell reply settings root
  totalFiles := rfl
  languageFiles := sum_languageCounts _
  domainFiles := congrArg Nat.cast (sum_domains_length (domains_perm tree shell reply settings root))
  totalLines := congrArg Nat.cast (totalLineCount_eq_sum _)
  domainLines := by
    have hsum := sum_domains (domains_perm tree shell reply settings root) (·.lineCount)
    rw [hsum, ← totalLineCount_eq_sum]
    rfl
  edges _ hedge := Dependency.ends_of_mem_graph hedge
  edgesOnce := Dependency.nodup_graph _ _
  tags _ htag := carries_of_mem_tags htag
  tagsOnce := nodup_tag_paths tree shell reply settings root
  tagCount := length_tags_le tree shell reply settings root

/-- Where every domain has a name, the tags carry the names of domains. -/
theorem IsClosed.named {scan : Scan} {limit : Nat} (h : scan.IsClosed Domain.labelOrLayer limit)
    (hnames : ∀ domain ∈ scan.domains, domain.name ≠ "") : scan.IsClosed Domain.label limit where
  __ := h
  tags tag htag := by
    obtain ⟨file, hfile, hpath, hlocation, comment, hcomment, place, hplace, hline⟩ :=
      h.tags tag htag
    refine ⟨file, hfile, hpath, hlocation, comment, hcomment, place, hplace, ?_⟩
    rw [hline, Domain.labelOrLayer, if_neg (hnames _ (scan.domains.get_mem place)), Domain.label]

/-- A tag carries one label only. -/
theorem Carries.label_eq {scan : Scan} {first second : Labels} {tag : InlineTag}
    (hfirst : scan.Carries first tag file) (hsecond : scan.Carries second tag file) :
    ∃ domain ∈ scan.domains, first domain file = second domain file := by
  obtain ⟨-, -, comment, hcomment, place, hplace, hline⟩ := hfirst
  obtain ⟨-, -, other, hother, there, hthere, hsame⟩ := hsecond
  obtain rfl : comment = other := Option.some_inj.mp (hcomment.symm.trans hother)
  obtain rfl : there = place := (hplace there).mp ((hthere there).mpr rfl)
  refine ⟨_, scan.domains.get_mem there, ?_⟩
  have hdrafts := hline.symm.trans hsame
  simpa [Text.Draft.ofString, Text.Draft.ofList, ← String.toList_inj,
    List.map_inj_right (f := Text.Mark.char) fun _ _ hc => Text.Mark.char.inj hc] using hdrafts

end Scan

namespace Listing

variable {tree : Tree} {root : Location} {path : String}

/-- No path of an answer has an empty segment when slashes stand in place of backslashes. -/
def HasNames (reply : Git.Reply) : Prop :=
  ∀ output, reply = .ok output →
    ∀ path ∈ Git.pathsOf output, "" ∉ Path.segments (Path.toSlashes path)

/-- What a directory is listed with are names. -/
theorem isName_of_listDirectory (hsound : tree.IsSound) {shell : Shell} {location : Location}
    {entries : List (String × Entry)} (h : tree.listDirectory shell location = .ok entries) :
    ∀ item ∈ entries, IsName item.1 := by
  obtain ⟨⟨place, entry⟩, -, hentries⟩ := Outcome.bind_eq_ok_iff.mp h
  cases entry with
  | file bytes modified => cases hentries
  | link target => cases hentries
  | directory =>
      cases hentries
      rintro ⟨name, entry⟩ hmem
      exact hsound.names _ _ (hsound.mem_children.mp hmem) name (by simp)

theorem exists_names_of_mem_walkFrom (hsound : tree.IsSound) {shell : Shell} {depth : Nat}
    {front : Route} (hfront : ∀ name ∈ front, IsName name)
    (h : path ∈ (walkFrom tree shell root depth front).paths) :
    ∃ names, names ≠ [] ∧ (∀ name ∈ names, IsName name) ∧ path = slashed names := by
  induction depth generalizing front with
  | zero => cases h
  | succ depth ih =>
      cases hlist : tree.listDirectory shell (root.below front) with
      | error failure =>
          rw [paths_walkFrom_of_not_listed hlist] at h
          cases h
      | ok entries =>
          have hentries := isName_of_listDirectory hsound hlist
          have hlonger : ∀ item ∈ entries, ∀ name ∈ front ++ [item.1], IsName name := by
            intro item hitem name hname
            rcases List.mem_append.mp hname with hmem | hlast
            · exact hfront name hmem
            · exact List.mem_singleton.mp hlast ▸ hentries item hitem
          rcases (mem_walkFrom_of_listed hlist).mp h with ⟨name, hname, rfl⟩ | ⟨name, hname, hmem⟩
          · obtain ⟨item, hitem, rfl⟩ := List.mem_map.mp hname
            exact ⟨_, by simp, hlonger item (List.mem_filter.mp hitem).1, rfl⟩
          · rw [enteredNames, Text.mem_sortDistinct] at hname
            obtain ⟨item, hitem, rfl⟩ := List.mem_map.mp hname
            exact ih (hlonger item (List.mem_filter.mp hitem).1) hmem

theorem segments_of_mem_walk (hsound : tree.IsSound) {shell : Shell}
    (h : path ∈ (walk tree shell root).paths) : "" ∉ Path.segments path := by
  obtain ⟨names, hne, hnames, rfl⟩ := exists_names_of_mem_walkFrom hsound (by simp) h
  have hsegments : Path.segments (slashed names) = names :=
    Location.splitString_slashed hne fun name hname => (hnames name hname).slash
  rw [hsegments]
  exact fun hempty => (hnames "" hempty).ne_empty rfl

/-- No listed path has an empty segment unless git lists one. -/
theorem segments_of_mem_paths (hsound : tree.IsSound) {shell : Shell} {reply : Git.Reply}
    (hreply : HasNames reply) {patterns : List String}
    (h : path ∈ (ofTree tree shell reply patterns root).paths) : "" ∉ Path.segments path := by
  by_cases huseless : IsUseless reply
  · rw [paths_of_useless huseless, arrange, Text.mem_sortDistinct, List.mem_filter] at h
    exact segments_of_mem_walk hsound h.1
  · cases reply with
    | error cause => exact absurd trivial huseless
    | ok output =>
        rw [paths_of_output huseless, arrange, Text.mem_sortDistinct, List.mem_filter,
          List.mem_map] at h
        obtain ⟨⟨raw, hraw, rfl⟩, -⟩ := h
        exact hreply output rfl raw hraw

end Listing

namespace Project

open Scan

variable {tree : Tree} {shell : Shell} {reply : Git.Reply} {path : String}
  {given : Option Settings} {generation : Generation}

/-- Whatever is listed, the scan is closed and its tags carry the name of the domain of their file,
or the layer of the file if that domain has no name. Every domain has one unless git lists a path
with an empty segment. -/
theorem generate_isClosed [Yaml.Reader] (h : generate tree shell reply path given = .ok generation) :
    ∃ settings, AreChosen tree shell generation.root given settings ∧
      generation.scan.IsClosed Domain.labelOrLayer settings.maxTags ∧
      (tree.IsSound → Listing.HasNames reply →
        (∀ domain ∈ generation.scan.domains, domain.name ≠ "") ∧
          generation.scan.IsClosed Domain.label settings.maxTags) := by
  obtain ⟨root, settings, -, hchosen, rfl⟩ := exists_of_generate h
  have hclosed := isClosed_ofTree tree shell reply settings root
  refine ⟨settings, hchosen, hclosed, fun hsound hreply => ?_⟩
  have hnames : ∀ domain ∈ (ofTree tree shell reply settings root).domains, domain.name ≠ "" := by
    refine fun domain hdomain => Domain.name_ne_of_mem_infer hdomain fun file hfile => ?_
    obtain ⟨reading, hreading, hfile⟩ := List.mem_filterMap.mp hfile
    obtain ⟨listed, hlisted, rfl⟩ := List.mem_map.mp hreading
    rw [path_of_fileAt? hfile]
    exact Listing.segments_of_mem_paths hsound hreply hlisted
  exact ⟨hnames, hclosed.named hnames⟩

/-- A project with one file. -/
def singleTree : Tree :=
  { entries := [(["p"], .directory), (["p", "src"], .directory),
      (["p", "src", "index.ts"], .file (Text.Utf8.encode "export {};\n".toList) .recently)] }

theorem generate_isClosed_single :
    singleTree.IsSound ∧ Listing.HasNames (.ok "src/index.ts\x00") ∧
      ∃ generation, generate singleTree ⟨[], []⟩ (.ok "src/index.ts\x00") "/p" (some .standard) =
          .ok generation ∧ (∀ domain ∈ generation.scan.domains, domain.name ≠ "") ∧
        generation.scan.IsClosed Domain.label 20 := by
  have hplain : singleTree.IsPlain ["p"] :=
    Tree.isPlain_of_entries (by decide) (by decide) (by decide)
  have hnames : Listing.HasNames (.ok "src/index.ts\x00") := by
    intro output houtput
    cases houtput
    decide +kernel
  have hroot : Project.root singleTree ⟨[], []⟩ "/p" = .ok ["p"] := by decide +kernel
  have hgenerate : generate singleTree ⟨[], []⟩ (.ok "src/index.ts\x00") "/p" (some .standard) =
      .ok (.ofTree singleTree ⟨[], []⟩ (.ok "src/index.ts\x00") .standard ["p"]) :=
    generate_eq hroot .standard
  obtain ⟨settings, hchosen, -, hclosed⟩ := generate_isClosed hgenerate
  obtain rfl : settings = .standard := hchosen
  exact ⟨hplain.sound, hnames, _, hgenerate, hclosed hplain.sound hnames⟩

/-- What git says if two backslashes stand between the names. -/
def doubledReply : Git.Reply := .ok "src\\\\index.ts\x00"

/-- The file of the project under the path that is listed. -/
def doubledFile : SourceFile :=
  .ofBytes "src//index.ts" "/p/src/index.ts" (Text.Utf8.encode "export {};\n".toList)

theorem files_doubledReply :
    (Scan.ofTree singleTree ⟨[], []⟩ doubledReply .standard ["p"]).files = [doubledFile] := by
  have hshort : ¬ Listing.maxAnswer < "src\\\\index.ts\x00".length := by decide
  have hpaths : (Listing.ofTree singleTree ⟨[], []⟩ doubledReply Settings.standard.excludes
      ["p"]).paths = ["src//index.ts"] := by
    have hlisted : ((Git.pathsOf "src\\\\index.ts\x00").map Path.toSlashes).filter
        (Listing.accepts Settings.standard.excludes) = ["src//index.ts"] := by decide +kernel
    unfold doubledReply
    rw [Listing.paths_of_output hshort, Listing.arrange, hlisted,
      Text.sortDistinct_of_pairwise (List.pairwise_singleton _ _)]
  have hread : singleTree.readBytes ⟨[], []⟩ ((Location.ofRoute ["p"]).child "src//index.ts") =
      .ok (Text.Utf8.encode "export {};\n".toList) := by decide +kernel
  have hfile : fileAt? singleTree ⟨[], []⟩ ["p"] "src//index.ts" = some doubledFile := by
    have hlocation : ((Location.ofRoute ["p"]).child "src//index.ts").text = "/p/src/index.ts" := by
      decide +kernel
    unfold fileAt? Reading.file? Reading.ofPath doubledFile
    dsimp only
    rw [hread, hlocation]
    rfl
  rw [files_ofTree, hpaths, List.filterMap_cons_some hfile]
  rfl

theorem generate_doubledReply :
    generate singleTree ⟨[], []⟩ doubledReply "/p" (some .standard) =
      .ok (.ofTree singleTree ⟨[], []⟩ doubledReply .standard ["p"]) :=
  generate_eq (by decide +kernel) .standard

/-- The only domain has no name, so the tag of the file cannot carry it. -/
theorem not_isClosed_doubled :
    (∀ path ∈ Git.pathsOf "src\\\\index.ts\x00", "" ∉ Path.segments path) ∧
      ∃ generation, generate singleTree ⟨[], []⟩ doubledReply "/p" (some .standard) =
          .ok generation ∧ ¬ generation.scan.IsClosed Domain.label 20 := by
  refine ⟨by decide +kernel, _, generate_doubledReply, fun hplain => ?_⟩
  have hfiles := files_doubledReply
  have hclosed := isClosed_ofTree singleTree ⟨[], []⟩ doubledReply .standard ["p"]
  -- The ranking is sorted, which does not reduce, so the tag is shown to be among the best.
  have hproposed : RankedFile.ofFile [] doubledFile ∈ RankedFile.best [] 20
      (Scan.ofTree singleTree ⟨[], []⟩ doubledReply .standard ["p"]).files := by
    have hsign : Sign.entrypoint ∈ Sign.ofFile doubledFile :=
      List.mem_filter.mpr ⟨by decide, by decide +kernel⟩
    have hcandidate : RankedFile.isCandidate doubledFile = true := by
      rw [RankedFile.isCandidate, Bool.and_eq_true, Bool.not_eq_true', List.isEmpty_eq_false_iff]
      exact ⟨by decide +kernel, List.ne_nil_of_mem hsign⟩
    rw [RankedFile.mem_best (pairwise_files ..), hfiles]
    refine ⟨doubledFile, List.mem_cons_self, hcandidate, rfl, ?_⟩
    exact Nat.lt_of_le_of_lt List.countP_le_length (by decide)
  obtain ⟨file, hfile, hcarries⟩ := hclosed.tags _ (List.mem_map_of_mem hproposed)
  obtain ⟨other, hother, hlabel⟩ := hplain.tags _ (List.mem_map_of_mem hproposed)
  change file ∈ (Scan.ofTree _ _ _ _ _).files at hfile
  change other ∈ (Scan.ofTree _ _ _ _ _).files at hother
  rw [hfiles, List.mem_singleton] at hfile hother
  subst hfile hother
  obtain ⟨domain, hdomain, hsame⟩ := hcarries.label_eq hlabel
  have hname : domain.name = "" := by
    obtain ⟨lower, hlower, rfl⟩ := List.mem_map.mp hdomain
    obtain ⟨file, hfile, htitle⟩ := Domain.name_of_mem_byDirectory hlower
    change file ∈ (Scan.ofTree _ _ _ _ _).files at hfile
    rw [hfiles, List.mem_singleton] at hfile
    rw [Domain.name_withChannels, htitle, hfile]
    decide +kernel
  rw [Domain.labelOrLayer, if_pos hname, Domain.label, hname] at hsame
  revert hsame
  decide +kernel

end Project

end SourceAtlas
