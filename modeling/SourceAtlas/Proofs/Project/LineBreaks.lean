import SourceAtlas.Project.Generation
import SourceAtlas.Proofs.Document.Lengths
import SourceAtlas.Proofs.Project.Rejected
import SourceAtlas.Proofs.Scan.Shape
import SourceAtlas.Proofs.Text.Returns
import SourceAtlas.Proofs.Tree.Contents
import SourceAtlas.Proofs.Tree.Place

/-!
# Generating ignores line endings

Some files of a tree get a return in front of every line feed. What is generated from the tree stays
the same, but for the sizes of these files: a file grows by one byte for every line but its last.
-/

namespace SourceAtlas

namespace Tree

/-- The tree with a return in front of every line feed of the chosen files. -/
def withReturns (tree : Tree) (chosen : Route → Bool) : Tree :=
  tree.mapBytes fun route bytes => if chosen route then Text.Utf8.withReturns bytes else bytes

/-- No chosen file holds a return. -/
def LacksReturns (tree : Tree) (chosen : Route → Bool) : Prop :=
  ∀ route bytes modified, chosen route = true → tree.find? route = some (.file bytes modified) →
    0x0D ∉ bytes

/-- The location leads to a chosen place. -/
def leadsToChosen (tree : Tree) (chosen : Route → Bool) (shell : Shell) (location : Location) :
    Bool :=
  match tree.stat shell location with
  | .ok (place, _) => chosen place
  | .error _ => false

variable {tree : Tree} {chosen : Route → Bool} {shell : Shell} {location : Location}

theorem find?_of_readBytes {bytes : List UInt8} (h : tree.readBytes shell location = .ok bytes) :
    ∃ place modified, tree.stat shell location = .ok (place, .file bytes modified) ∧
      tree.find? place = some (.file bytes modified) := by
  unfold readBytes at h
  cases hstat : tree.stat shell location with
  | error failure => rw [hstat] at h; cases h
  | ok found =>
      obtain ⟨place, entry⟩ := found
      rw [hstat] at h
      cases entry with
      | file old modified =>
          cases h
          have hholds := holds_of_walk (locate_eq_ok_iff.mp (stat_eq_ok_iff.mp hstat)).2
          exact ⟨place, modified, rfl, hholds.resolve_left nofun⟩
      | directory => cases h
      | link target => cases h

theorem readBytes_withReturns (shell : Shell) (location : Location) :
    (tree.withReturns chosen).readBytes shell location =
      (tree.readBytes shell location).map fun bytes =>
        if tree.leadsToChosen chosen shell location then Text.Utf8.withReturns bytes else bytes := by
  unfold withReturns leadsToChosen
  rw [readBytes_mapBytes]
  cases hstat : tree.stat shell location with
  | error failure =>
      unfold readBytes
      rw [hstat]
      rfl
  | ok found => rfl

/-- A file that leads to a chosen place holds no return. -/
theorem LacksReturns.not_mem (h : tree.LacksReturns chosen) {bytes : List UInt8}
    (hread : tree.readBytes shell location = .ok bytes)
    (hchosen : tree.leadsToChosen chosen shell location = true) : 0x0D ∉ bytes := by
  obtain ⟨place, modified, hstat, hfind⟩ := find?_of_readBytes hread
  unfold leadsToChosen at hchosen
  rw [hstat] at hchosen
  exact h place bytes modified hchosen hfind

/-- Every file is read as the same text. -/
theorem LacksReturns.readLenient (h : tree.LacksReturns chosen) (shell : Shell)
    (location : Location) :
    (tree.withReturns chosen).readLenient shell location = tree.readLenient shell location := by
  unfold Tree.readLenient
  rw [readBytes_withReturns]
  cases hread : tree.readBytes shell location with
  | error failure => rfl
  | ok bytes =>
      by_cases hchosen : tree.leadsToChosen chosen shell location = true
      · simp [Except.map, hchosen, Text.read_withReturns (h.not_mem hread hchosen)]
      · simp [Except.map, hchosen]

end Tree

/-! ## Files that grow -/

/-- The file, larger by one byte for every line but its last if its path is chosen. -/
def SourceFile.grown (chosen : String → Bool) (file : SourceFile) : SourceFile :=
  if chosen file.path then { file with sizeBytes := file.sizeBytes + (file.lineCount - 1) }
  else file

/-- What came of reading a file, after a change of the file. -/
def Reading.mapFile (change : SourceFile → SourceFile) (reading : Reading) : Reading :=
  { reading with outcome := reading.outcome.map change }

/-- The scan with changed files. -/
def Scan.mapFiles (change : SourceFile → SourceFile) (scan : Scan) : Scan :=
  { scan with
    readings := scan.readings.map (Reading.mapFile change)
    domains := scan.domains.map (Domain.mapFiles change) }

/-- The generated documents with changed files in their scan. -/
def Generation.mapFiles (change : SourceFile → SourceFile) (generation : Generation) : Generation :=
  { generation with scan := generation.scan.mapFiles change }

theorem keepsShape_grown (chosen : String → Bool) : KeepsShape (SourceFile.grown chosen) := by
  constructor <;> intro file <;> unfold SourceFile.grown <;> split <;> rfl

theorem lineCount_grown (chosen : String → Bool) (file : SourceFile) :
    (file.grown chosen).lineCount = file.lineCount := by
  unfold SourceFile.grown
  split <;> rfl

theorem location_grown (chosen : String → Bool) (file : SourceFile) :
    (file.grown chosen).location = file.location := by
  unfold SourceFile.grown
  split <;> rfl

/-- A file is known as before, but for its size. -/
theorem SourceFile.ofBytes_withReturns {bytes : List UInt8} (h : 0x0D ∉ bytes)
    (path location : String) :
    ofBytes path location (Text.Utf8.withReturns bytes) =
      { ofBytes path location bytes with
        sizeBytes := bytes.length + ((ofBytes path location bytes).lineCount - 1) } := by
  unfold ofBytes
  dsimp only
  rw [Text.read_withReturns h, Text.length_withReturns h]

theorem Scan.filesOf_mapFile (change : SourceFile → SourceFile) (readings : List Reading) :
    filesOf (readings.map (Reading.mapFile change)) = (filesOf readings).map change := by
  unfold filesOf
  rw [List.filterMap_map, List.map_filterMap]
  refine List.filterMap_congr fun reading _ => ?_
  rw [Function.comp_apply, Reading.file?, Reading.file?, Reading.mapFile]
  cases reading.outcome <;> rfl

/-! ## Projects -/

namespace Project

variable {tree : Tree} {chosen : Route → Bool}

/-- The file of a path in a project lies at a chosen place. -/
def isChosen (tree : Tree) (chosen : Route → Bool) (shell : Shell) (root : Location)
    (path : String) : Bool :=
  tree.leadsToChosen chosen shell (root.child path)

variable (h : tree.LacksReturns chosen) (shell : Shell) (root : Location)

include h

theorem reading_withReturns (path : String) :
    Reading.ofPath (tree.withReturns chosen) shell root path =
      (Reading.ofPath tree shell root path).mapFile (.grown (isChosen tree chosen shell root)) := by
  unfold Reading.ofPath Reading.mapFile
  dsimp only
  rw [Tree.readBytes_withReturns]
  cases hread : tree.readBytes shell (root.child path) with
  | error failure => rfl
  | ok bytes =>
      have hpath : (SourceFile.ofBytes path (root.child path).text bytes).path =
          path := rfl
      by_cases hchosen : isChosen tree chosen shell root path = true
      · have hbytes := h.not_mem hread hchosen
        have hsize : (SourceFile.ofBytes path (root.child path).text bytes).sizeBytes =
            bytes.length := rfl
        rw [isChosen] at hchosen
        simp only [Except.map, SourceFile.grown, isChosen, hpath, hchosen, if_true,
          SourceFile.ofBytes_withReturns hbytes, hsize]
      · rw [isChosen] at hchosen
        simp only [Except.map, SourceFile.grown, isChosen, hpath, hchosen]
        rfl

theorem proposals_withReturns (domains : List Domain) (limit : Int) (files : List SourceFile) :
    InlineTag.proposals
        (fun file => (tree.withReturns chosen).tagAt? shell (.ofText file.location)) []
        (domains.map (Domain.mapFiles (.grown (isChosen tree chosen shell root)))) limit
        (files.map (.grown (isChosen tree chosen shell root))) =
      InlineTag.proposals (fun file => tree.tagAt? shell (.ofText file.location)) [] domains limit
        files := by
  refine (InlineTag.proposals_map (keepsShape_grown _) (lineCount_grown _) domains limit
    (fun file => tree.tagAt? shell (.ofText file.location)) fun file _ => ?_).trans ?_
  · rw [location_grown, Tree.tagAt?, h.readLenient, Tree.tagAt?]
  · simp only [location_grown]
    rfl

/-- A scan finds the same, but for the sizes of the chosen files. -/
theorem scan_withReturns (reply : Git.Reply) (settings : Settings) :
    Scan.ofTree (tree.withReturns chosen) shell reply settings root =
      (Scan.ofTree tree shell reply settings root).mapFiles
        (.grown (isChosen tree chosen shell root)) := by
  have hlisting : Listing.ofTree (tree.withReturns chosen) shell reply settings.excludes root =
      Listing.ofTree tree shell reply settings.excludes root := Listing.ofTree_mapBytes ..
  have hreadings : ∀ paths : List String,
      paths.map (Reading.ofPath (tree.withReturns chosen) shell root) =
        (paths.map (Reading.ofPath tree shell root)).map
          (Reading.mapFile (.grown (isChosen tree chosen shell root))) := by
    intro paths
    rw [List.map_map]
    exact List.map_congr_left fun path _ => reading_withReturns h shell root path
  have hshape := keepsShape_grown (isChosen tree chosen shell root)
  unfold Scan.ofTree Scan.mapFiles
  dsimp only
  rw [hlisting, hreadings, Scan.filesOf_mapFile, Domain.infer_map hshape,
    Dependency.graph_map hshape, proposals_withReturns h]

/-- The documents that are there already are read as before. -/
theorem existing?_withReturns (page : Page) :
    Generation.existing? (tree.withReturns chosen) shell root page =
      Generation.existing? tree shell root page := by
  unfold Generation.existing?
  rw [h.readLenient]

theorem ofTree_withReturns (reply : Git.Reply) (settings : Settings) :
    Generation.ofTree (tree.withReturns chosen) shell reply settings root =
      (Generation.ofTree tree shell reply settings root).mapFiles
        (.grown (isChosen tree chosen shell root)) := by
  have hfiles : (Scan.ofTree (tree.withReturns chosen) shell reply settings root).files =
      (Scan.ofTree tree shell reply settings root).files.map
        (.grown (isChosen tree chosen shell root)) := by
    rw [scan_withReturns h]
    exact Scan.filesOf_mapFile _ _
  have htext : ∀ page : Page, page.text (nameOf root)
      (Scan.ofTree (tree.withReturns chosen) shell reply settings root).summary =
        page.text (nameOf root) (Scan.ofTree tree shell reply settings root).summary := by
    intro page
    rw [Scan.summary_ofTree, Scan.summary_ofTree, hfiles]
    exact Page.text_map (keepsShape_grown _) (lineCount_grown _) settings page _ _
  unfold Generation.ofTree Generation.mapFiles
  dsimp only
  rw [htext, htext, existing?_withReturns h, existing?_withReturns h, scan_withReturns h]

/-- Line endings decide nothing in what is generated but the sizes of the files that have them. -/
theorem generate_withReturns [Yaml.Reader] (reply : Git.Reply) (path : String) (settings : Settings) :
    generate (tree.withReturns chosen) shell reply path (some settings) =
      (generate tree shell reply path (some settings)).map fun generation =>
        generation.mapFiles (.grown (isChosen tree chosen shell generation.root)) := by
  have hroot : Project.root (tree.withReturns chosen) shell path =
      Project.root tree shell path := root_mapBytes ..
  unfold generate
  rw [hroot]
  cases Project.root tree shell path with
  | error failure => rfl
  | ok root => exact congrArg Except.ok (ofTree_withReturns h shell root reply settings)

/-! ## A malformed sequence in front of a line feed -/

omit h

/-- A project of two files. A malformed sequence stands in front of the line feed of the first. -/
def tornTree : Tree := flatTree ["p"] [("a.ts", [0x61, 0xC3, 0x0A]), ("b.ts", [0x0A])]

/-- The first file of the project. -/
def isTorn (route : Route) : Bool := route = ["p", "a.ts"]

example : isChosen tornTree isTorn ⟨[], []⟩ ["p"] "a.ts" = true := by decide +kernel

example : isChosen tornTree isTorn ⟨[], []⟩ ["p"] "b.ts" = false := by decide +kernel

theorem lacksReturns_tornTree : tornTree.LacksReturns isTorn := by
  intro route bytes modified htorn hfind
  rw [of_decide_eq_true htorn] at hfind
  obtain ⟨rfl, -⟩ := Entry.file.inj (Option.some.inj hfind)
  decide

theorem root_tornTree (shell : Shell) :
    Project.root tornTree shell (Location.ofRoute ["p"]).text = .ok ["p"] := by
  have hordinary : tornTree.IsOrdinary ["p"] :=
    flatTree.isOrdinary (by decide) (by decide) (by decide)
  exact root_text_ofRoute hordinary.sound hordinary.directory (by decide) shell

/-- The first file gets a return, the second one does not. -/
theorem generate_withReturns_torn :
    tornTree.LacksReturns isTorn ∧ ∃ generation,
      generate tornTree ⟨[], []⟩ (.error .missing) (Location.ofRoute ["p"]).text
        (some .standard) = .ok generation ∧
      generate (tornTree.withReturns isTorn) ⟨[], []⟩ (.error .missing)
          (Location.ofRoute ["p"]).text (some .standard) =
        .ok (generation.mapFiles (.grown (isChosen tornTree isTorn ⟨[], []⟩ generation.root))) := by
  refine ⟨lacksReturns_tornTree, _, generate_eq (root_tornTree _) .standard, ?_⟩
  rw [generate_withReturns lacksReturns_tornTree, generate_eq (root_tornTree _)]
  rfl

end Project

end SourceAtlas
