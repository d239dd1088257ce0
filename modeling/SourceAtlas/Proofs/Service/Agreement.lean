import SourceAtlas.Proofs.Command.Session
import SourceAtlas.Proofs.Project.Refusal
import SourceAtlas.Proofs.Service.Client
import SourceAtlas.Yaml.Document

/-!
# The command line and the service agree

Both are told the same path and settings. The command generates and writes in one go; a client of the
service asks for the documents and sends them back. They turn down the same requests, leave the same
files and report the same of what was written.
-/

namespace SourceAtlas

open Command Service

variable {terminal : Terminal} {path : String} {overrides : Settings.Overrides} {tree : Tree}
  {framework : Framework} {generation : Generation}

/-- A service at the place of a terminal. -/
def Command.Terminal.service (terminal : Terminal) (framework : Framework) (now : String)
    (elapsed : Nat) : Surroundings :=
  ⟨framework, terminal.shell, terminal.git, now, elapsed⟩

/-! ## What is reported -/

/-- What a command and a client of the service come to know is the same. -/
inductive SameReport (terminal : Terminal) (around : Surroundings) :
    Outcome × Console → Answer × Option Answer → Prop
  /-- An integer has too many digits to be read. -/
  | unread {console : Console} (silent : console.output = "") :
      SameReport terminal around (.exited 2, console)
        (⟨400, .json (.object [("detail", .string "There was an error parsing the body")])⟩, none)
  /-- The path leads to no project. -/
  | absent (cause : Failure) (kind : cause.kind = .absent) {console : Console}
      (silent : console.output = "") (told : console.errors = cause.message ++ "\n") :
      SameReport terminal around (.exited 1, console)
        (⟨404, .json (.object [("detail", .string cause.message)])⟩, none)
  /-- The settings make no sense. -/
  | invalid (cause : Failure) (kind : cause.kind = .invalid) {console : Console}
      (silent : console.output = "")
      (told : console.errors = "repoatlas generate failed: " ++ cause.message ++ "\n") :
      SameReport terminal around (.exited 1, console)
        (⟨400, .json (.object [("detail", .string cause.message)])⟩, none)
  /-- Generating breaks down. -/
  | brokenDown (cause : Failure) (kind : cause.kind = .breakdown) {console : Console}
      (silent : console.output = "") :
      SameReport terminal around (.failed cause, console)
        (⟨500, .text "Internal Server Error"⟩, none)
  /-- The same is generated, and writing breaks off. -/
  | brokenOff (generation : Generation) (cause : Failure) {console : Console}
      (shown : console.output = summaryText terminal.elapsed generation.scan) :
      SameReport terminal around (.failed cause, console)
        (⟨200, .json (generationJson around generation)⟩,
          some ⟨500, .text "Internal Server Error"⟩)
  /-- The same is generated and written. -/
  | written (generation : Generation) (report : WriteReport) {console : Console}
      (shown : console.output = summaryText terminal.elapsed generation.scan
        ++ ("Wrote overview: " ++ (if report.overviewWritten then "yes" else "no")
          ++ ", repo index: " ++ (if report.indexWritten then "yes" else "no")
          ++ ", inline tags: " ++ toString report.tagsWritten) ++ "\n") :
      SameReport terminal around
        (.exited (if report.overviewWritten && report.indexWritten then 0 else 1), console)
        (⟨200, .json (generationJson around generation)⟩,
          some ⟨200, .json (.object
            [("claudeMdWritten", .bool report.overviewWritten),
             ("repoIndexWritten", .bool report.indexWritten),
             ("inlineTagsWritten", .int report.tagsWritten)])⟩)

/-- The command shows nothing and ends with a message about what it was told. -/
def IsTurnedDown (ran : Outcome × Console) : Prop :=
  ran.2.output = "" ∧ (ran.1 = .exited 2 ∨
    ran.1 = .exited 1 ∧ "repoatlas generate failed: ".toList <+: ran.2.errors.toList)

theorem head?_of_prefix {front text : List Char} {c : Char} (h : front <+: text)
    (hfront : front.head? = some c) : text.head? = some c := by
  obtain ⟨more, rfl⟩ := List.head?_eq_some_iff.mp hfront
  obtain ⟨rest, rfl⟩ := h
  rfl

theorem head?_refused (errno : Errno) (path : String) (target : Option String) :
    (DiskFailure.refused errno path target).message.toList.head? = some '[' := by
  unfold DiskFailure.message
  simp only [String.toList_append, List.append_assoc]
  rfl

/-- No message about something that is not there starts like one about what was told. -/
theorem not_prefix_of_absent {cause : Failure} (h : cause.kind = .absent) :
    ¬ "repoatlas generate failed: ".toList <+: (cause.message ++ "\n").toList := by
  have hother : ∀ c, cause.message.toList.head? = some c → c ≠ 'r' →
      ¬ "repoatlas generate failed: ".toList <+: (cause.message ++ "\n").toList := by
    intro c hc hne hfront
    obtain ⟨more, hmore⟩ := List.head?_eq_some_iff.mp hc
    have hhead := head?_of_prefix hfront (show _ = some 'r' by decide)
    rw [String.toList_append, hmore] at hhead
    exact hne (Option.some.inj hhead)
  cases cause with
  | noProject path =>
      refine hother 'P' ?_ (by decide)
      unfold Failure.message
      rw [String.toList_append]
      rfl
  | notDirectory path =>
      refine hother 'P' ?_ (by decide)
      unfold Failure.message
      rw [String.toList_append]
      rfl
  | disk failure =>
      cases failure with
      | refused errno path target => exact hother '[' (head?_refused errno path target) (by decide)
      | nulByte | emptyName _ | encoding _ | linkLoop _ | tooDeep | noHome => cases h
  | settings failure => exact absurd h (Project.settings_kind failure)
  | overrides _ | year _ | timedOut => cases h

theorem summaryText_append_ne (elapsed : Nat) (scan : Scan) (more : String) :
    summaryText elapsed scan ++ more ≠ "" := by
  intro hempty
  have hlist := congrArg String.toList hempty
  unfold summaryText summaryLines at hlist
  simp [String.toList_append] at hlist

/-- A command turns down what the service calls a bad request. -/
theorem SameReport.isTurnedDown_iff {around : Surroundings} {ran : Outcome × Console}
    {asked : Answer × Option Answer} (h : SameReport terminal around ran asked) :
    IsTurnedDown ran ↔ asked.1.status = 400 := by
  unfold IsTurnedDown
  cases h with
  | unread silent => exact iff_of_true ⟨silent, .inl rfl⟩ rfl
  | absent cause kind silent told =>
      refine iff_of_false ?_ (by simp)
      rintro ⟨-, hwrong | ⟨-, hfront⟩⟩
      · cases hwrong
      · exact not_prefix_of_absent kind (told ▸ hfront)
  | invalid cause kind silent told =>
      refine iff_of_true ⟨silent, .inr ⟨rfl, ?_⟩⟩ rfl
      dsimp only
      rw [told, String.toList_append, String.toList_append, List.append_assoc]
      exact List.prefix_append _ _
  | brokenDown cause kind silent =>
      refine iff_of_false ?_ (by simp)
      rintro ⟨-, hwrong | ⟨hwrong, -⟩⟩ <;> cases hwrong
  | brokenOff generation cause shown =>
      refine iff_of_false ?_ (by simp)
      rintro ⟨-, hwrong | ⟨hwrong, -⟩⟩ <;> cases hwrong
  | written generation report shown =>
      refine iff_of_false ?_ (by simp)
      rintro ⟨hsilent, -⟩
      rw [shown, String.append_assoc] at hsilent
      exact summaryText_append_ne _ _ _ hsilent

/-! ## The two ways side by side -/

/-- Where nothing is generated, both say why. -/
theorem sameReport_of_error (around : Surroundings) (tree : Tree) (cause : Failure) :
    SameReport terminal around (finish { tree := tree } (.error (generateEnding cause)))
      (.ofFailure cause, none) := by
  unfold generateEnding Answer.ofFailure
  cases hkind : cause.kind with
  | absent => exact .absent cause hkind rfl (String.empty_append ..)
  | invalid => exact .invalid cause hkind rfl (String.empty_append ..)
  | breakdown => exact .brokenDown cause hkind rfl

section SideBySide

variable [Yaml.Reader] {around : Surroundings} (hcarries : around.framework.Carries)
  (hshell : around.shell = terminal.shell) (hgit : around.git = terminal.git)
  (hpath : IsArgument path) (h : IsTypable overrides)

include hcarries hpath h

theorem sameReport_of_long {n : Int} (hn : overrides.maxTags = some n) (hlong : Number.IsLong n)
    (tree : Tree) :
    let ran := Command.run terminal (writeWords path overrides) tree
    let asked := (session around path overrides).run tree
    ran.2.tree = asked.2 ∧ SameReport terminal around ran asked.1 := by
  obtain ⟨errors, hrun⟩ := run_writeWords_of_long hpath h terminal hn hlong tree
  have hsession := run_session_of_long hcarries hn hlong path tree
  rw [hrun, hsession]
  exact ⟨rfl, .unread rfl⟩

include hshell hgit

theorem sameReport_of_generated (hshort : ∀ n ∈ overrides.maxTags, ¬ Number.IsLong n)
    (tree : Tree) :
    let ran := Command.run terminal (writeWords path overrides) tree
    let asked := (session around path overrides).run tree
    ran.2.tree = asked.2 ∧ SameReport terminal around ran asked.1 := by
  cases hgenerate : Project.generateWith tree terminal.shell terminal.git.listing path overrides with
  | error cause =>
      have hasked := hgenerate
      rw [← hshell, ← hgit] at hasked
      rw [run_writeWords_of_error hpath h hshort hgenerate,
        run_session_of_error hcarries hshort hasked]
      exact ⟨finish_tree { tree := tree } _, sameReport_of_error around tree cause⟩
  | ok generation =>
      have hasked := hgenerate
      rw [← hshell, ← hgit] at hasked
      obtain ⟨errors, hrun⟩ := run_writeWords_of_ok hpath h hshort hgenerate
      have hkind : ∀ cause, (Project.deliver terminal.shell path generation tree).1 =
          .error cause → cause.kind = .breakdown := fun cause => Project.kind_of_deliver hgenerate
      rw [hrun, run_session_of_ok hcarries hshort hasked, hshell]
      dsimp only
      generalize Project.deliver terminal.shell path generation tree = delivered at hkind
      rcases delivered with ⟨outcome, after⟩
      cases outcome with
      | error cause =>
          dsimp only [answerOf]
          unfold Answer.ofFailure
          rw [hkind cause rfl]
          refine ⟨rfl, .brokenOff generation cause ?_⟩
          dsimp only
      | ok report =>
          refine ⟨rfl, .written generation report ?_⟩
          dsimp only
          rfl

end SideBySide

/-- The command line and the service leave the same files, report the same of them and turn down the
same settings: the command with a message, the service as a bad request. The path is written without
a dash in front, or it would be taken for a flag. -/
theorem run_agrees_session [Yaml.Reader] (terminal : Terminal) (hcarries : framework.Carries)
    (now : String) (elapsed : Nat) (hpath : IsArgument path) (h : IsTypable overrides)
    (tree : Tree) :
    let ran := Command.run terminal (writeWords path overrides) tree
    let asked := (session (terminal.service framework now elapsed) path overrides).run tree
    ran.2.tree = asked.2 ∧
      SameReport terminal (terminal.service framework now elapsed) ran asked.1 ∧
      (IsTurnedDown ran ↔ asked.1.1.status = 400) := by
  obtain ⟨htree, hreport⟩ : let ran := Command.run terminal (writeWords path overrides) tree
    let asked := (session (terminal.service framework now elapsed) path overrides).run tree
    ran.2.tree = asked.2 ∧
      SameReport terminal (terminal.service framework now elapsed) ran asked.1 := by
    by_cases hlong : ∃ n, overrides.maxTags = some n ∧ Number.IsLong n
    · obtain ⟨n, hn, hlong⟩ := hlong
      exact sameReport_of_long hcarries hpath h hn hlong tree
    · exact sameReport_of_generated hcarries rfl rfl hpath h
        (fun n hn hwrong => hlong ⟨n, hn, hwrong⟩) tree
  exact ⟨htree, hreport, hreport.isTurnedDown_iff⟩

/-- A project of one file, asked for with every setting. -/
theorem run_agrees_session_plain :
    let terminal : Terminal := ⟨⟨[], []⟩, ⟨.error .missing, .error .missing⟩, "", "", 3⟩
    let overrides : Settings.Overrides := ⟨some 2, some "low", ["*.md", "docs"]⟩
    let tree : Tree := ⟨[(["p"], .directory), (["p", "a.ts"], .file [64] .recently)]⟩
    let ran := Command.run terminal (writeWords "/p" overrides) tree
    let asked := (session (terminal.service .standard "now" 4) "/p" overrides).run tree
    ran.2.tree = asked.2 ∧ SameReport terminal (terminal.service .standard "now" 4) ran asked.1 ∧
      (IsTurnedDown ran ↔ asked.1.1.status = 400) :=
  run_agrees_session _ Framework.carries_standard "now" 4 (by decide) ⟨by decide, by decide⟩ _

end SourceAtlas
