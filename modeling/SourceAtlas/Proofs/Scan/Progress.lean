import SourceAtlas.Proofs.Listing.Git
import SourceAtlas.Proofs.Project.Generation
import SourceAtlas.Proofs.Scan.Files
import SourceAtlas.Yaml.Document

/-!
# The progress of a scan

The phases of a scan come in order, and each one ends when all of it is done. The events between two
files count the listed files, but the last event of the analysis counts the files that could be read.
So the total stays the same exactly if every listed file could be read, and the analysis falls back
exactly if some event has counted more files than could be read.
-/

namespace SourceAtlas

/-! ## Stages -/

/-- The events of a phase. -/
def inPhase (phase : Phase) (events : List Progress) : List Progress :=
  events.filter fun event => event.phase = phase

/-- Events of one phase, the last of which tells that all of it is done. -/
structure IsStage (phase : Phase) (events : List Progress) : Prop where
  phase_eq : ∀ event ∈ events, event.phase = phase
  finished : ∃ last, events.getLast? = some last ∧ last.current = last.total

/-- The phases come in order, and each of them ends when all of it is done. -/
structure IsOrderly (events : List Progress) : Prop where
  inOrder : events.Pairwise fun earlier later => earlier.phase.rank ≤ later.phase.rank
  finished : ∀ phase, ∃ last, (inPhase phase events).getLast? = some last ∧
    last.current = last.total

/-- All events of the analysis have the same total. -/
def HasOneTotal (events : List Progress) : Prop :=
  ∀ first ∈ inPhase .analyzing events, ∀ second ∈ inPhase .analyzing events,
    first.total = second.total

/-- The analysis never falls back. -/
def NeverFallsBack (events : List Progress) : Prop :=
  (inPhase .analyzing events).Pairwise fun earlier later => earlier.current ≤ later.current

section Stages

variable {phase : Phase} {events listing analysis inference documents : List Progress}

theorem inPhase_append (phase : Phase) (first second : List Progress) :
    inPhase phase (first ++ second) = inPhase phase first ++ inPhase phase second := by
  simp [inPhase]

theorem IsStage.inPhase_eq (h : IsStage phase events) (other : Phase) :
    inPhase other events = if phase = other then events else [] := by
  unfold inPhase
  split
  · next heq =>
    rw [List.filter_eq_self]
    intro event hevent
    simp [h.phase_eq event hevent, heq]
  · next hne =>
    rw [List.filter_eq_nil_iff]
    intro event hevent
    simp [h.phase_eq event hevent, hne]

theorem IsStage.pairwise_append {later : List Progress} (h : IsStage phase events)
    (hlater : later.Pairwise fun first second => first.phase.rank ≤ second.phase.rank)
    (hrank : ∀ event ∈ later, phase.rank ≤ event.phase.rank) :
    (events ++ later).Pairwise fun first second => first.phase.rank ≤ second.phase.rank := by
  rw [List.pairwise_append]
  refine ⟨?_, hlater, ?_⟩
  · refine List.pairwise_of_forall_mem_list fun first hfirst second hsecond => ?_
    rw [h.phase_eq first hfirst, h.phase_eq second hsecond]
  · intro first hfirst second hsecond
    rw [h.phase_eq first hfirst]
    exact hrank second hsecond

/-- The events of the four stages in a row. -/
def inRow (listing analysis inference documents : List Progress) : List Progress :=
  listing ++ (analysis ++ (inference ++ documents))

variable (hlisting : IsStage .enumerating listing) (hanalysis : IsStage .analyzing analysis)
  (hinference : IsStage .inferring inference) (hdocuments : IsStage .generating documents)

include hlisting hanalysis hinference hdocuments

theorem inPhase_inRow (phase : Phase) :
    inPhase phase (inRow listing analysis inference documents) =
      match phase with
      | .enumerating => listing
      | .analyzing => analysis
      | .inferring => inference
      | .generating => documents := by
  simp only [inRow, inPhase_append, hlisting.inPhase_eq, hanalysis.inPhase_eq,
    hinference.inPhase_eq, hdocuments.inPhase_eq]
  cases phase <;> simp

theorem isOrderly_inRow : IsOrderly (inRow listing analysis inference documents) where
  inOrder := by
    have hlast : documents.Pairwise fun first second => first.phase.rank ≤ second.phase.rank := by
      have halone := hdocuments.pairwise_append List.Pairwise.nil (by simp)
      rwa [List.append_nil] at halone
    refine hlisting.pairwise_append (hanalysis.pairwise_append
      (hinference.pairwise_append hlast ?_) ?_) ?_
    · intro event hevent
      rw [hdocuments.phase_eq event hevent]
      decide
    · intro event hevent
      rcases List.mem_append.mp hevent with hevent | hevent
      · rw [hinference.phase_eq event hevent]
        decide
      · rw [hdocuments.phase_eq event hevent]
        decide
    · intro event _
      exact Nat.zero_le _
  finished phase := by
    rw [inPhase_inRow hlisting hanalysis hinference hdocuments]
    cases phase with
    | enumerating => exact hlisting.finished
    | analyzing => exact hanalysis.finished
    | inferring => exact hinference.finished
    | generating => exact hdocuments.finished

end Stages

namespace Scan

variable {scan : Scan} {total index : Nat} {reading : Reading} {readings : List Reading}
  {event : Progress}

/-! ## The events of the analysis -/

/-- The event in front of a file, every so many files. -/
def mark (total index : Nat) (reading : Reading) : List Progress :=
  if index % interval = 0 then [⟨.analyzing, index, total, "Analyzing " ++ reading.path⟩] else []

/-- The events in front of files. -/
def marks (total : Nat) (readings : List Reading) : List Progress :=
  (readings.mapIdx (mark total)).flatten

theorem mem_mark :
    event ∈ mark total index reading ↔ index % interval = 0 ∧
      event = ⟨.analyzing, index, total, "Analyzing " ++ reading.path⟩ := by
  unfold mark
  split
  · next hmark => simp [hmark]
  · next hskip => simp [hskip]

theorem mem_marks :
    event ∈ marks total readings ↔ ∃ index, ∃ h : index < readings.length,
      index % interval = 0 ∧
        event = ⟨.analyzing, index, total, "Analyzing " ++ readings[index].path⟩ := by
  unfold marks
  rw [List.mem_flatten]
  constructor
  · rintro ⟨events, hevents, hmem⟩
    obtain ⟨index, hindex, rfl⟩ := List.mem_mapIdx.mp hevents
    exact ⟨index, hindex, mem_mark.mp hmem⟩
  · rintro ⟨index, hindex, hmark⟩
    exact ⟨_, List.mem_mapIdx.mpr ⟨index, hindex, rfl⟩, mem_mark.mpr hmark⟩

theorem pairwise_marks (total : Nat) (readings : List Reading) :
    (marks total readings).Pairwise fun earlier later => earlier.current ≤ later.current := by
  unfold marks
  rw [List.pairwise_flatten]
  constructor
  · intro events hevents
    obtain ⟨index, hindex, rfl⟩ := List.mem_mapIdx.mp hevents
    unfold mark
    split
    · exact List.pairwise_singleton _ _
    · exact List.Pairwise.nil
  · rw [List.pairwise_iff_getElem]
    intro first second hfirst hsecond hlt earlier hearlier later hlater
    rw [List.getElem_mapIdx] at hearlier hlater
    rw [(mem_mark.mp hearlier).2, (mem_mark.mp hlater).2]
    exact Nat.le_of_lt hlt

/-- The events of the analysis. -/
def analysisProgress (scan : Scan) : List Progress :=
  ⟨.analyzing, 0, scan.listing.paths.length, "Analyzing imports..."⟩ ::
    (marks scan.listing.paths.length scan.readings ++
      [⟨.analyzing, scan.files.length, scan.files.length, "Import analysis complete"⟩])

theorem filterMap_progress?_records (records : List Log.Record) :
    (records.map ScanEvent.record).filterMap ScanEvent.progress? = [] := by
  simp [List.filterMap_map, ScanEvent.progress?]

theorem filterMap_progress?_readingEvents (total index : Nat) (reading : Reading) :
    (readingEvents total index reading).filterMap ScanEvent.progress? = mark total index reading := by
  unfold readingEvents mark
  rw [List.filterMap_append, filterMap_progress?_records, List.append_nil]
  split <;> rfl

theorem filterMap_progress?_analysisEvents (scan : Scan) :
    scan.analysisEvents.filterMap ScanEvent.progress? = scan.analysisProgress := by
  have hmarks : (scan.readings.mapIdx (readingEvents scan.listing.paths.length)).flatten.filterMap
      ScanEvent.progress? = marks scan.listing.paths.length scan.readings := by
    unfold marks
    rw [List.filterMap_flatten]
    congr 1
    refine List.ext_getElem (by simp) fun index hfirst hsecond => ?_
    simp [filterMap_progress?_readingEvents]
  unfold analysisEvents analysisProgress
  dsimp only
  rw [List.filterMap_append, List.filterMap_append, hmarks]
  rfl

theorem mem_analysisProgress :
    event ∈ scan.analysisProgress ↔
      event = ⟨.analyzing, 0, scan.listing.paths.length, "Analyzing imports..."⟩ ∨
      event ∈ marks scan.listing.paths.length scan.readings ∨
      event = ⟨.analyzing, scan.files.length, scan.files.length, "Import analysis complete"⟩ := by
  unfold analysisProgress
  rw [List.mem_cons, List.mem_append, List.mem_singleton]

theorem isStage_analysis (scan : Scan) : IsStage .analyzing scan.analysisProgress where
  phase_eq event hevent := by
    rcases mem_analysisProgress.mp hevent with rfl | hmark | rfl
    · rfl
    · obtain ⟨index, -, -, rfl⟩ := mem_marks.mp hmark
      rfl
    · rfl
  finished := by
    refine ⟨⟨.analyzing, scan.files.length, scan.files.length, "Import analysis complete"⟩, ?_, rfl⟩
    unfold analysisProgress
    rw [← List.cons_append, List.getLast?_concat]

/-! ## The four phases -/

/-- The events of the listing. -/
def listingProgress (scan : Scan) : List Progress := scan.listingEvents.filterMap ScanEvent.progress?

/-- The events of the inference. -/
def inferenceProgress (scan : Scan) : List Progress :=
  scan.inferenceEvents.filterMap ScanEvent.progress?

theorem isStage_listing (scan : Scan) : IsStage .enumerating scan.listingProgress := by
  unfold listingProgress listingEvents
  dsimp only
  rw [List.filterMap_append, List.filterMap_append, filterMap_progress?_records]
  constructor
  · simp [ScanEvent.progress?]
  · exact ⟨_, rfl, rfl⟩

theorem isStage_inference (scan : Scan) : IsStage .inferring scan.inferenceProgress := by
  unfold inferenceProgress inferenceEvents
  constructor
  · simp [ScanEvent.progress?]
  · exact ⟨_, rfl, rfl⟩

theorem isStage_documents :
    IsStage .generating (documentEvents.filterMap ScanEvent.progress?) := by
  unfold documentEvents
  constructor
  · simp [ScanEvent.progress?]
  · exact ⟨_, rfl, rfl⟩

theorem progress_eq (scan : Scan) :
    scan.progress = inRow scan.listingProgress scan.analysisProgress scan.inferenceProgress
      (documentEvents.filterMap ScanEvent.progress?) := by
  unfold progress events inRow listingProgress inferenceProgress
  simp only [List.filterMap_append, filterMap_progress?_analysisEvents, List.append_assoc]

theorem isOrderly_progress (scan : Scan) : IsOrderly scan.progress := by
  rw [progress_eq]
  exact isOrderly_inRow scan.isStage_listing scan.isStage_analysis scan.isStage_inference
    isStage_documents

theorem inPhase_analyzing (scan : Scan) :
    inPhase .analyzing scan.progress = scan.analysisProgress := by
  rw [progress_eq]
  exact inPhase_inRow scan.isStage_listing scan.isStage_analysis scan.isStage_inference
    isStage_documents .analyzing

/-- The total stays the same if as many files could be read as are listed. -/
theorem hasOneTotal_iff (scan : Scan) :
    HasOneTotal scan.progress ↔ scan.files.length = scan.listing.paths.length := by
  unfold HasOneTotal
  rw [inPhase_analyzing]
  constructor
  · intro h
    exact h _ (mem_analysisProgress.mpr (.inr (.inr rfl))) _ (mem_analysisProgress.mpr (.inl rfl))
  · intro hlength
    have htotal : ∀ event ∈ scan.analysisProgress, event.total = scan.listing.paths.length := by
      intro event hevent
      rcases mem_analysisProgress.mp hevent with rfl | hmark | rfl
      · rfl
      · obtain ⟨index, -, -, rfl⟩ := mem_marks.mp hmark
        rfl
      · exact hlength
    intro first hfirst second hsecond
    rw [htotal first hfirst, htotal second hsecond]

/-- The analysis falls back if an event has counted more files than could be read. -/
theorem neverFallsBack_iff (scan : Scan) :
    NeverFallsBack scan.progress ↔
      ∀ index < scan.readings.length, index % interval = 0 → index ≤ scan.files.length := by
  unfold NeverFallsBack
  rw [inPhase_analyzing]
  unfold analysisProgress
  rw [List.pairwise_cons, List.pairwise_append]
  constructor
  · rintro ⟨-, -, -, hlast⟩ index hindex hmark
    exact hlast _ (mem_marks.mpr ⟨index, hindex, hmark, rfl⟩) _ List.mem_cons_self
  · intro h
    -- The indices ascend, so only the last event can be behind one in front of it.
    refine ⟨fun event _ => Nat.zero_le _, pairwise_marks _ _, List.pairwise_singleton _ _, ?_⟩
    intro event hevent last hlast
    obtain ⟨index, hindex, hmark, rfl⟩ := mem_marks.mp hevent
    obtain rfl := List.mem_singleton.mp hlast
    exact h index hindex hmark

/-! ## Listed files that cannot be read -/

section Readable

variable (tree : Tree) (shell : Shell) (reply : Git.Reply) (settings : Settings) (root : Location)

/-- The file of a path in a project can be read. -/
def IsReadable (path : String) : Prop :=
  ∃ bytes, tree.readBytes shell (root.child path) = .ok bytes

variable {tree shell root} in
theorem isSome_fileAt?_iff {path : String} :
    (fileAt? tree shell root path).isSome ↔ IsReadable tree shell root path := by
  unfold fileAt? Reading.file? Reading.ofPath IsReadable
  dsimp only
  cases tree.readBytes shell (root.child path) with
  | ok bytes => simp [Except.map, Except.toOption]
  | error failure => simp [Except.map, Except.toOption]

theorem length_readings_ofTree :
    (ofTree tree shell reply settings root).readings.length =
      (ofTree tree shell reply settings root).listing.paths.length :=
  List.length_map _

/-- As many files are known as are listed if all of them can be read. -/
theorem length_files_eq_iff :
    (ofTree tree shell reply settings root).files.length =
        (ofTree tree shell reply settings root).listing.paths.length ↔
      ∀ path ∈ (ofTree tree shell reply settings root).listing.paths,
        IsReadable tree shell root path := by
  rw [files_ofTree]
  simp only [← isSome_fileAt?_iff]
  exact List.filterMap_length_eq_length

end Readable

end Scan

namespace Project

open Scan

variable {tree : Tree} {shell : Shell} {reply : Git.Reply} {path : String}
  {given : Option Settings} {generation : Generation}

/-- The phases of a run come in order and each ends when all of it is done. The total of the analysis
stays the same exactly if every listed file can be read, and the analysis falls back exactly if an
event has counted more files than can be read. -/
theorem progress_steady_iff [Yaml.Reader] (h : generate tree shell reply path given = .ok generation) :
    IsOrderly generation.scan.progress ∧
      (HasOneTotal generation.scan.progress ↔ ∀ path ∈ generation.scan.listing.paths,
        IsReadable tree shell generation.root path) ∧
      (NeverFallsBack generation.scan.progress ↔
        ∀ index < generation.scan.listing.paths.length, index % Scan.interval = 0 →
          index ≤ generation.scan.files.length) := by
  obtain ⟨root, settings, -, -, rfl⟩ := exists_of_generate h
  refine ⟨isOrderly_progress _, ?_, ?_⟩
  · rw [hasOneTotal_iff]
    exact length_files_eq_iff tree shell reply settings root
  · have hlength := length_readings_ofTree tree shell reply settings root
    rw [neverFallsBack_iff]
    exact hlength ▸ Iff.rfl

/-- An empty project. -/
def emptyTree : Tree := { entries := [(["p"], .directory)] }

/-- The names of files that are gone. -/
def goneNames : List String :=
  ["a.ts", "b.ts", "c.ts", "d.ts", "e.ts", "f.ts", "g.ts", "h.ts", "i.ts", "j.ts", "k.ts", "l.ts",
    "m.ts", "n.ts", "o.ts", "p.ts", "q.ts", "r.ts", "s.ts", "t.ts", "u.ts"]

/-- What git says while the files are in its index still. -/
def goneReply : Git.Reply := .ok ("\x00".intercalate goneNames)

theorem paths_goneReply :
    (Listing.ofTree emptyTree ⟨[], []⟩ goneReply [] ["p"]).paths = goneNames := by
  have hpaths : Git.pathsOf ("\x00".intercalate goneNames) = goneNames := by decide +kernel
  have hslashes : goneNames.map Path.toSlashes = goneNames := by decide +kernel
  have haccepts : goneNames.filter (Listing.accepts []) = goneNames := by decide +kernel
  have hascends : goneNames.Pairwise (· < ·) := by decide +kernel
  have hshort : ¬ Listing.maxAnswer < ("\x00".intercalate goneNames).length := by decide +kernel
  unfold goneReply
  rw [Listing.paths_of_output hshort, hpaths, hslashes, Listing.arrange, haccepts,
    Text.sortDistinct_of_pairwise hascends]

theorem fileAt?_emptyTree :
    goneNames.filterMap (fileAt? emptyTree ⟨[], []⟩ ["p"]) = [] := by
  rw [List.filterMap_eq_nil_iff]
  decide +kernel

theorem progress_steady_iff_gone :
    ∃ generation, generate emptyTree ⟨[], []⟩ goneReply "/p" (some .standard) = .ok generation ∧
      IsOrderly generation.scan.progress ∧ ¬ HasOneTotal generation.scan.progress ∧
      ¬ NeverFallsBack generation.scan.progress := by
  have hroot : Project.root emptyTree ⟨[], []⟩ "/p" = .ok ["p"] := by decide +kernel
  have hgenerate : generate emptyTree ⟨[], []⟩ goneReply "/p" (some .standard) =
      .ok (.ofTree emptyTree ⟨[], []⟩ goneReply .standard ["p"]) := generate_eq hroot .standard
  have hpaths : (Generation.ofTree emptyTree ⟨[], []⟩ goneReply .standard ["p"]).scan.listing.paths =
      goneNames := paths_goneReply
  have hfiles : (Generation.ofTree emptyTree ⟨[], []⟩ goneReply .standard ["p"]).scan.files = [] := by
    change (Scan.ofTree _ _ _ _ _).files = []
    rw [files_ofTree]
    exact (congrArg _ paths_goneReply).trans fileAt?_emptyTree
  obtain ⟨horderly, htotal, hback⟩ := progress_steady_iff hgenerate
  rw [hpaths] at htotal hback
  rw [hfiles] at hback
  refine ⟨_, hgenerate, horderly, fun hone => ?_, fun hnever => ?_⟩
  · have hreadable := htotal.mp hone "a.ts" (by decide)
    rw [← isSome_fileAt?_iff] at hreadable
    exact absurd hreadable (by decide +kernel)
  · exact absurd (hback.mp hnever 20 (by decide) rfl) (by decide)

end Project

end SourceAtlas
