import SourceAtlas.Command.Run
import SourceAtlas.Proofs.Command.Words
import SourceAtlas.Proofs.Project.Delivery

/-!
# Runs of a command

A run of a command ends normally or not, and what it did before it ended stays done. A run that
generates and writes the documents of a project shows what comes of both; without a log file it
changes nothing but what is written.
-/

namespace SourceAtlas.Command

namespace Session

variable {α β : Type}

/-- How a session ends, and the console after it. -/
def runOn (session : Session α) (console : Console) : Except Ending α × Console :=
  (ExceptT.run session).run console

theorem runOn_pure (result : α) (console : Console) :
    runOn (pure result) console = (.ok result, console) := rfl

theorem runOn_bind (session : Session α) (next : α → Session β) (console : Console) :
    runOn (session >>= next) console =
      match runOn session console with
      | (.ok result, after) => runOn (next result) after
      | (.error ending, after) => (.error ending, after) := by
  simp only [runOn, ExceptT.run_bind, StateT.run_bind]
  rcases StateT.run (ExceptT.run session) console with ⟨result, after⟩
  cases result <;> rfl

theorem runOn_bind_of_ok {session : Session α} {console after : Console} {result : α}
    (h : runOn session console = (.ok result, after)) (next : α → Session β) :
    runOn (session >>= next) console = runOn (next result) after := by
  rw [runOn_bind, h]

theorem runOn_bind_of_error {session : Session α} {console after : Console} {ending : Ending}
    (h : runOn session console = (.error ending, after)) (next : α → Session β) :
    runOn (session >>= next) console = (.error ending, after) := by
  rw [runOn_bind, h]

theorem runOn_printLine (line : String) (console : Console) :
    runOn (printLine line) console =
      (.ok (), { console with output := console.output ++ line ++ "\n" }) := rfl

theorem runOn_printLines (lines : List String) (console : Console) :
    runOn (lines.forM printLine) console =
      (.ok (), { console with output := console.output ++ String.join (lines.map (· ++ "\n")) }) := by
  induction lines generalizing console with
  | nil => simp [runOn_pure]
  | cons line lines ih =>
      change runOn (printLine line >>= fun _ => lines.forM printLine) console = _
      rw [runOn_bind_of_ok (runOn_printLine line console), ih]
      simp [String.append_assoc]

theorem runOn_get (console : Console) : runOn get console = (.ok console, console) := rfl

end Session

open Session

variable {terminal : Terminal} {path : String} {overrides : Settings.Overrides} {console : Console}
  {generation : Generation}

theorem runOn_orEnd_of_error {α : Type} {outcome : Except Failure α} {cause : Failure}
    (h : outcome = .error cause) (ending : Failure → Ending) (console : Console) :
    runOn (orEnd ending outcome) console = (.error (ending cause), console) := by
  rw [h]
  rfl

theorem runOn_orEnd_of_ok {α : Type} {outcome : Except Failure α} {result : α}
    (h : outcome = .ok result) (ending : Failure → Ending) (console : Console) :
    runOn (orEnd ending outcome) console = (.ok result, console) := by
  rw [h]
  rfl

/-- Without a log file records go to the error output only. -/
theorem runOn_write (terminal : Terminal) (verbose : Bool) (records : List Log.Record)
    (console : Console) :
    ∃ text, runOn (Recorder.write terminal ⟨verbose, none⟩ records) console =
      (.ok (), { console with errors := console.errors ++ text }) :=
  ⟨_, rfl⟩

/-! ## Generating -/

theorem runOn_generateFrom_of_error [Yaml.Reader] {cause : Failure}
    (h : Project.generateWith console.tree terminal.shell terminal.git.listing path overrides =
      .error cause) (verbose : Bool) :
    runOn (generateFrom terminal ⟨verbose, none⟩ (writeOptions path overrides)) console =
      (.error (generateEnding cause), console) := by
  unfold generateFrom
  rw [runOn_bind_of_ok (runOn_get console)]
  rcases Outcome.bind_eq_error_iff.mp h with hloading | ⟨settings, hloaded, hgenerate⟩
  · exact runOn_bind_of_error (runOn_orEnd_of_error hloading generateEnding console) _
  · have hroot : Project.root console.tree terminal.shell path = .error cause := by
      rcases Outcome.bind_eq_error_iff.mp hgenerate with hroot | ⟨root, -, hrest⟩
      · exact hroot
      · cases hrest
    refine (runOn_bind_of_ok (runOn_orEnd_of_ok hloaded generateEnding console) _).trans ?_
    exact runOn_bind_of_error (runOn_orEnd_of_error hroot generateEnding console) _

theorem runOn_generateFrom_of_ok [Yaml.Reader]
    (h : Project.generateWith console.tree terminal.shell terminal.git.listing path overrides =
      .ok generation) (verbose : Bool) :
    ∃ text, runOn (generateFrom terminal ⟨verbose, none⟩ (writeOptions path overrides)) console =
      (.ok generation, { console with errors := console.errors ++ text }) := by
  obtain ⟨settings, hloaded, hgenerate⟩ := Outcome.bind_eq_ok_iff.mp h
  obtain ⟨root, chosen, hroot, hchosen, rfl⟩ := Project.exists_of_generate hgenerate
  cases hchosen
  obtain ⟨first, hfirst⟩ := runOn_write terminal verbose [Scan.startRecord root] console
  let scan := Scan.ofTree console.tree terminal.shell terminal.git.listing settings root
  obtain ⟨second, hsecond⟩ := runOn_write terminal verbose
    (scan.events.map ScanEvent.toRecord ++ [scan.endRecord terminal.elapsed])
    { console with errors := console.errors ++ first }
  refine ⟨first ++ second, ?_⟩
  unfold generateFrom
  rw [runOn_bind_of_ok (runOn_get console)]
  refine (runOn_bind_of_ok (runOn_orEnd_of_ok hloaded generateEnding console) _).trans ?_
  refine (runOn_bind_of_ok (runOn_orEnd_of_ok hroot generateEnding console) _).trans ?_
  refine (runOn_bind_of_ok hfirst _).trans ?_
  refine (runOn_bind_of_ok (runOn_get _) _).trans ?_
  refine (runOn_bind_of_ok hsecond _).trans ?_
  rw [runOn_pure, String.append_assoc]

/-! ## Writing -/

/-- How a command ends that has written documents. -/
def reportEnding (report : WriteReport) : Except Ending Unit :=
  if report.overviewWritten && report.indexWritten then .ok ()
  else .error (.exit 1
    "Some atlas documents could not be written. Run with --verbose for details.\n")

theorem finish_reportEnding (console : Console) (report : WriteReport) :
    ∃ errors, finish console (reportEnding report) =
      (.exited (if report.overviewWritten && report.indexWritten then 0 else 1),
        { console with errors := errors }) := by
  unfold reportEnding
  cases report.overviewWritten && report.indexWritten <;> exact ⟨_, rfl⟩

theorem finish_tree (console : Console) (ending : Except Ending Unit) :
    (finish console ending).2.tree = console.tree := by
  cases ending with
  | ok _ => rfl
  | error ending => cases ending <;> rfl

theorem runOn_writeFrom (terminal : Terminal) (verbose : Bool) (path : String)
    (overrides : Settings.Overrides) (generation : Generation) (console : Console) :
    let delivered := Project.deliver terminal.shell path generation console.tree
    ∃ errors, runOn (writeFrom terminal ⟨verbose, none⟩ (writeOptions path overrides) generation)
        console =
      match delivered.1 with
      | .error cause =>
          (.error (.failed cause), { console with tree := delivered.2, errors := errors })
      | .ok report =>
          (reportEnding report,
            { console with
              tree := delivered.2
              output := console.output ++ writtenLine report ++ "\n"
              errors := errors }) := by
  unfold writeFrom Project.deliver
  rw [runOn_bind_of_ok (runOn_get console)]
  dsimp only [writeOptions]
  simp only [Bool.false_eq_true, if_false]
  generalize StateT.run (Project.write terminal.shell path generation.overview
    generation.index generation.scan.tags) console.tree = written
  rcases written with ⟨outcome, after⟩
  cases outcome with
  | error cause => exact ⟨console.errors, rfl⟩
  | ok report =>
      obtain ⟨text, hwrite⟩ := runOn_write terminal verbose report.records
        { console with tree := after }
      refine ⟨console.errors ++ text, ?_⟩
      have hmodify : runOn (modify fun console => { console with tree := after }) console =
          (.ok (), { console with tree := after }) := rfl
      have hreport : runOn (Session.orFail (.ok report)) { console with tree := after } =
          (.ok report, { console with tree := after }) := rfl
      refine (runOn_bind_of_ok hmodify _).trans ?_
      refine (runOn_bind_of_ok hreport _).trans ?_
      refine (runOn_bind_of_ok hwrite _).trans ?_
      unfold Project.settled
      dsimp only [Except.bind]
      cases report.stopped with
      | some cause => rfl
      | none =>
          refine (runOn_bind_of_ok (runOn_printLine (writtenLine report) _) _).trans ?_
          dsimp only
          unfold reportEnding
          cases report.overviewWritten && report.indexWritten <;> rfl

/-! ## The whole command -/

/-- What is shown of a scan. -/
def summaryText (elapsed : Nat) (scan : Scan) : String :=
  String.join ((summaryLines elapsed scan).map (· ++ "\n"))

/-- Generate, show what was generated, and write it. -/
def writeSession [Yaml.Reader] (terminal : Terminal) (path : String) (overrides : Settings.Overrides) :
    Session Unit := do
  let generation ← generateFrom terminal ⟨false, none⟩ (writeOptions path overrides)
  (summaryLines terminal.elapsed generation.scan).forM Session.printLine
  writeFrom terminal ⟨false, none⟩ (writeOptions path overrides) generation

theorem runOn_writeSession_of_error [Yaml.Reader] {cause : Failure}
    (h : Project.generateWith console.tree terminal.shell terminal.git.listing path overrides =
      .error cause) :
    runOn (writeSession terminal path overrides) console =
      (.error (generateEnding cause), console) := by
  unfold writeSession
  exact runOn_bind_of_error (runOn_generateFrom_of_error h false) _

theorem runOn_writeSession_of_ok [Yaml.Reader]
    (h : Project.generateWith console.tree terminal.shell terminal.git.listing path overrides =
      .ok generation) :
    let delivered := Project.deliver terminal.shell path generation console.tree
    ∃ errors, runOn (writeSession terminal path overrides) console =
      match delivered.1 with
      | .error cause =>
          (.error (.failed cause),
            { console with
              tree := delivered.2
              output := console.output ++ summaryText terminal.elapsed generation.scan
              errors := errors })
      | .ok report =>
          (reportEnding report,
            { console with
              tree := delivered.2
              output := console.output ++ summaryText terminal.elapsed generation.scan
                ++ writtenLine report ++ "\n"
              errors := errors }) := by
  obtain ⟨records, hgenerate⟩ := runOn_generateFrom_of_ok h false
  have hsummary := runOn_printLines (summaryLines terminal.elapsed generation.scan)
    { console with errors := console.errors ++ records }
  obtain ⟨errors, hwrite⟩ := runOn_writeFrom terminal false path overrides generation
    { console with
      output := console.output ++ summaryText terminal.elapsed generation.scan
      errors := console.errors ++ records }
  refine ⟨errors, ?_⟩
  unfold writeSession
  rw [runOn_bind_of_ok hgenerate, runOn_bind_of_ok hsummary]
  exact hwrite

section Whole

variable {tree : Tree} (hpath : IsArgument path) (h : IsTypable overrides)

include hpath h

/-- An integer with too many digits ends the command before it does anything. -/
theorem run_writeWords_of_long [Yaml.Reader] (terminal : Terminal) {n : Int} (hn : overrides.maxTags = some n)
    (hlong : Number.IsLong n) (tree : Tree) :
    ∃ errors, run terminal (writeWords path overrides) tree =
      (.exited 2, ⟨tree, "", errors, []⟩) := by
  obtain ⟨message, hread⟩ := readCommandLine_writeWords_of_long h hpath hn hlong
  unfold run
  rw [hread]
  exact ⟨_, rfl⟩

theorem run_writeWords [Yaml.Reader] (hshort : ∀ n ∈ overrides.maxTags, ¬ Number.IsLong n) (terminal : Terminal)
    (tree : Tree) :
    run terminal (writeWords path overrides) tree =
      finish (runOn (writeSession terminal path overrides) { tree := tree }).2
        (runOn (writeSession terminal path overrides) { tree := tree }).1 := by
  have hread := readCommandLine_writeWords h hpath hshort
  unfold run
  rw [hread]
  rfl

/-- A command that generates nothing shows nothing but the cause. -/
theorem run_writeWords_of_error [Yaml.Reader] (hshort : ∀ n ∈ overrides.maxTags, ¬ Number.IsLong n)
    {cause : Failure} (herror : Project.generateWith tree terminal.shell terminal.git.listing path
      overrides = .error cause) :
    run terminal (writeWords path overrides) tree =
      finish { tree := tree } (.error (generateEnding cause)) := by
  have hrun : runOn (writeSession terminal path overrides) { tree := tree } =
      (.error (generateEnding cause), { tree := tree }) := runOn_writeSession_of_error herror
  rw [run_writeWords hpath h hshort, hrun]

/-- What is generated is shown and delivered. -/
theorem run_writeWords_of_ok [Yaml.Reader] (hshort : ∀ n ∈ overrides.maxTags, ¬ Number.IsLong n)
    (hok : Project.generateWith tree terminal.shell terminal.git.listing path overrides =
      .ok generation) :
    let delivered := Project.deliver terminal.shell path generation tree
    ∃ errors, run terminal (writeWords path overrides) tree =
      match delivered.1 with
      | .error cause =>
          (.failed cause, ⟨delivered.2, summaryText terminal.elapsed generation.scan, errors, []⟩)
      | .ok report =>
          (.exited (if report.overviewWritten && report.indexWritten then 0 else 1),
            ⟨delivered.2, summaryText terminal.elapsed generation.scan ++ writtenLine report ++ "\n",
              errors, []⟩) := by
  obtain ⟨errors, hrun⟩ : let delivered := Project.deliver terminal.shell path generation tree
    ∃ errors, runOn (writeSession terminal path overrides) { tree := tree } =
      match delivered.1 with
      | .error cause =>
          (.error (.failed cause), ⟨delivered.2, "" ++ summaryText terminal.elapsed generation.scan,
            errors, []⟩)
      | .ok report =>
          (reportEnding report, ⟨delivered.2, "" ++ summaryText terminal.elapsed generation.scan
            ++ writtenLine report ++ "\n", errors, []⟩) := runOn_writeSession_of_ok hok
  rw [run_writeWords hpath h hshort, hrun]
  dsimp only
  cases (Project.deliver terminal.shell path generation tree).1 with
  | error cause => exact ⟨errors, by rw [String.empty_append]; rfl⟩
  | ok report =>
      dsimp only
      rw [String.empty_append]
      exact finish_reportEnding _ report

end Whole

end SourceAtlas.Command
