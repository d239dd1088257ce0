import Mathlib.Data.List.Induction
import SourceAtlas.Proofs.Command.Words
import SourceAtlas.Proofs.Outcome

/-!
# Where the flags for logging stand

The words behind a command are complete arguments, one behind the other: a flag with the value behind
it, or a single word. Reading an argument changes what is said about logging and the rest of the draft
independently, so a flag for logging can stand in front of the command or between any two arguments
behind it.
-/

namespace SourceAtlas.Command

variable {level : Level} {draft : Draft} {word : String} {own argument : List String}

/-! ## Complete arguments -/

/-- The word is a flag that takes the word behind it as its value. -/
def takesNext (level : Level) (word : String) : Bool :=
  match Word.read level word with
  | .known flag none => flag.takesValue
  | _ => false

/-- The words behind a command, argument by argument. -/
def arguments (level : Level) : List String → List (List String)
  | [] => []
  | [word] => [[word]]
  | word :: value :: rest =>
      if takesNext level word then [word, value] :: arguments level rest
      else [word] :: arguments level (value :: rest)

/-- A flag with the value behind it, or a word that needs none. -/
inductive IsComplete (level : Level) : List String → Prop
  | single {word : String} (h : takesNext level word = false) : IsComplete level [word]
  | pair {word : String} (h : takesNext level word = true) (value : String) :
      IsComplete level [word, value]

theorem flatten_arguments (level : Level) (words : List String) :
    (arguments level words).flatten = words := by
  induction words using arguments.induct level with
  | case1 => rfl
  | case2 word => rfl
  | case3 word value rest htakes ih => simp [arguments, htakes, ih]
  | case4 word value rest htakes ih => simp [arguments, htakes, ih]

/-- Read one argument. -/
def readArgument (level : Level) (draft : Draft) : List String → Except Stop Draft
  | [] => .ok draft
  | word :: behind =>
      match Word.read level word with
      | .known flag attached => readFlag level draft word flag attached behind
      | .unknown | .ambiguous _ => .ok (draft.addExtras [word])
      | .argument => .ok (takeArgument level draft word)

/-- The value that is attached to a flag is the one that counts. -/
theorem readValue_attached (level : Level) (draft : Draft) (flag : Flag) (value : String)
    (rest : List String) :
    readValue level draft flag (some value) rest = draft.setValue level flag value := rfl

/-- A flag with its value attached, or without one, is read whatever stands behind it. -/
theorem readFlag_of_not_takesNext {flag : Flag} {attached : Option String}
    (h : takesNext level word = false) (hread : Word.read level word = .known flag attached)
    (draft : Draft) (rest : List String) :
    readFlag level draft word flag attached rest = readFlag level draft word flag attached [] ∧
      behindFlag flag attached rest = rest := by
  unfold takesNext at h
  rw [hread] at h
  unfold readFlag behindFlag
  cases attached with
  | none =>
      have htakes : flag.takesValue = false := h
      simp [htakes]
  | some value =>
      refine ⟨?_, by simp⟩
      split
      · rw [readValue_attached, readValue_attached]
      · rfl

/-- A complete argument is read in one step. -/
theorem readArguments_append (h : IsComplete level argument) (hdashes : "--" ∉ argument)
    {rest : List String} (hrest : "--" ∉ rest) (draft : Draft) :
    readArguments level draft (argument ++ rest) =
      (readArgument level draft argument).bind fun next => readArguments level next rest := by
  cases h with
  | @single word h =>
      have hword : word ≠ "--" := fun hsame => hdashes (hsame ▸ List.mem_singleton_self _)
      rw [List.singleton_append, readArguments.eq_def]
      dsimp only
      rw [if_neg hword, readArgument]
      cases hread : Word.read level word with
      | known flag attached =>
          obtain ⟨hflag, hbehind⟩ := readFlag_of_not_takesNext h hread draft rest
          dsimp only
          rw [hflag, hbehind]
          rfl
      | unknown => rfl
      | ambiguous spellings => rfl
      | argument =>
          dsimp only
          split
          · exact absurd List.mem_cons_self hrest
          · rfl
  | @pair word h value =>
      have hword : word ≠ "--" := fun hsame => hdashes (hsame ▸ List.mem_cons_self)
      unfold takesNext at h
      rw [List.cons_append, List.singleton_append, readArguments.eq_def]
      dsimp only
      rw [if_neg hword, readArgument]
      cases hread : Word.read level word with
      | known flag attached =>
          rw [hread] at h
          cases attached with
          | some attached => cases h
          | none =>
              have htakes : flag.takesValue = true := h
              unfold readFlag behindFlag readValue
              simp only [htakes, Option.isNone_none, Bool.and_self, if_true, List.tail_cons]
              rfl
      | unknown => rw [hread] at h; cases h
      | ambiguous spellings => rw [hread] at h; cases h
      | argument => rw [hread] at h; cases h

/-- Complete arguments are read one after the other. -/
theorem readArguments_flatten {items : List (List String)}
    (hitems : ∀ argument ∈ items, IsComplete level argument) (hdashes : "--" ∉ items.flatten)
    (draft : Draft) :
    readArguments level draft items.flatten = items.foldlM (readArgument level) draft := by
  induction items generalizing draft with
  | nil => rw [List.flatten_nil, readArguments, List.foldlM_nil]; rfl
  | cons argument items ih =>
      rw [List.flatten_cons, List.mem_append, not_or] at hdashes
      rw [List.flatten_cons, readArguments_append (hitems argument List.mem_cons_self) hdashes.1
        hdashes.2, List.foldlM_cons]
      exact congrArg _ (funext fun next =>
        ih (fun other hother => hitems other (List.mem_cons_of_mem _ hother)) hdashes.2 next)

/-- When words are read to their end, all arguments in them are complete. -/
theorem isComplete_of_reads {result : Draft} (hdashes : "--" ∉ own)
    (h : readArguments level draft own = .ok result) :
    ∀ argument ∈ arguments level own, IsComplete level argument := by
  induction own using arguments.induct level generalizing draft with
  | case1 => exact fun _ hmem => absurd hmem List.not_mem_nil
  | case2 word =>
      intro argument hmem
      obtain rfl := List.mem_singleton.mp hmem
      cases htakes : takesNext level word with
      | false => exact .single htakes
      | true =>
          have hword : word ≠ "--" := fun hsame => hdashes (hsame ▸ List.mem_singleton_self _)
          unfold takesNext at htakes
          rw [readArguments.eq_def] at h
          dsimp only at h
          rw [if_neg hword] at h
          split at htakes
          · next flag hread =>
              rw [hread] at h
              dsimp only at h
              unfold readFlag readValue at h
              simp only [htakes, if_true] at h
              cases h
          · cases htakes
  | case3 word value rest htakes ih =>
      have hpair : IsComplete level [word, value] := .pair htakes value
      rw [show word :: value :: rest = [word, value] ++ rest from rfl] at hdashes h
      rw [List.mem_append, not_or] at hdashes
      rw [readArguments_append hpair hdashes.1 hdashes.2] at h
      obtain ⟨next, -, hrest⟩ := Outcome.bind_eq_ok_iff.mp h
      rw [arguments, if_pos htakes]
      exact List.forall_mem_cons.mpr ⟨hpair, ih hdashes.2 hrest⟩
  | case4 word value rest htakes ih =>
      have hsingle : IsComplete level [word] := .single (Bool.eq_false_iff.mpr htakes)
      rw [show word :: value :: rest = [word] ++ value :: rest from rfl] at hdashes h
      rw [List.mem_append, not_or] at hdashes
      rw [readArguments_append hsingle hdashes.1 hdashes.2] at h
      obtain ⟨next, -, hrest⟩ := Outcome.bind_eq_ok_iff.mp h
      rw [arguments, if_neg htakes]
      exact List.forall_mem_cons.mpr ⟨hsingle, ih hdashes.2 hrest⟩

/-! ## Logging and the rest of a draft -/

namespace Draft

/-- A draft that says nothing about logging. -/
def silent (draft : Draft) : Draft := { draft with verbose := false, logFile := none }

/-- What is said about logging later counts, and what has been said before is kept. -/
def andThen (earlier later : Draft) : Draft :=
  { later with
    verbose := later.verbose || earlier.verbose
    logFile := later.logFile.or earlier.logFile }

theorem andThen_silent (draft : Draft) : draft.andThen draft.silent = draft := rfl

theorem andThen_andThen (first second third : Draft) :
    (first.andThen second).andThen third = first.andThen (second.andThen third) := by
  simp [andThen, Bool.or_assoc, Option.or_assoc]

theorem silent_andThen (earlier later : Draft) : (earlier.andThen later).silent = later.silent := rfl

/-- A step that does the same whatever has been said about logging before. -/
def IsApart {α : Type} (step : Draft → α → Except Stop Draft) : Prop :=
  ∀ draft item, step draft item = (step draft.silent item).map draft.andThen

theorem IsApart.foldlM {α : Type} {step : Draft → α → Except Stop Draft} (h : IsApart step) :
    IsApart fun draft items => List.foldlM step draft items := by
  intro draft items
  change List.foldlM step draft items = (List.foldlM step draft.silent items).map draft.andThen
  induction items generalizing draft with
  | nil => exact congrArg Except.ok (andThen_silent draft).symm
  | cons item items ih =>
      rw [List.foldlM_cons, List.foldlM_cons, h draft item]
      cases step draft.silent item with
      | error stop => rfl
      | ok next =>
          change List.foldlM step (draft.andThen next) items =
            (List.foldlM step next items).map draft.andThen
          rw [ih (draft.andThen next), ih next, silent_andThen]
          cases List.foldlM step next.silent items with
          | error stop => rfl
          | ok last => exact congrArg Except.ok (andThen_andThen draft next last)

theorem isApart_setSwitch (level : Level) : IsApart (setSwitch level) := by
  intro draft flag
  cases flag <;> rfl

theorem setValue_apart (level : Level) (draft : Draft) (flag : Flag) (value : String) :
    draft.setValue level flag value = (draft.silent.setValue level flag value).map draft.andThen := by
  cases flag with
  | sensitivity =>
      simp only [setValue]
      cases sensitivityName level value <;> rfl
  | maxTags =>
      simp only [setValue]
      cases integer level .maxTags value <;> rfl
  | port =>
      simp only [setValue]
      cases integer level .port value <;> rfl
  | _ => rfl

end Draft

theorem readFlag_apart (level : Level) (draft : Draft) (word : String) (flag : Flag)
    (attached : Option String) (rest : List String) :
    readFlag level draft word flag attached rest =
      (readFlag level draft.silent word flag attached rest).map draft.andThen := by
  unfold readFlag
  split
  · cases attached with
    | some value =>
        rw [readValue_attached, readValue_attached]
        exact Draft.setValue_apart level draft flag value
    | none =>
        cases rest with
        | nil => rfl
        | cons value rest =>
            unfold readValue
            dsimp only
            split
            · exact Draft.setValue_apart level draft flag value
            · rfl
  · unfold readSwitch
    cases attached with
    | none => exact Draft.isApart_setSwitch level draft flag
    | some attached =>
        dsimp only
        split
        · rfl
        · cases attachedSwitches level flag (word.toList.drop 2) with
          | error stop => rfl
          | ok flags => exact (Draft.isApart_setSwitch level).foldlM draft flags

theorem takeArgument_apart (level : Level) (draft : Draft) (word : String) :
    takeArgument level draft word = draft.andThen (takeArgument level draft.silent word) := by
  have hpath : draft.silent.path = draft.path := rfl
  unfold takeArgument
  rw [hpath]
  split <;> rfl

/-- What an argument says about logging and what it says of all else do not depend on each other. -/
theorem isApart_readArgument (level : Level) : Draft.IsApart (readArgument level) := by
  intro draft argument
  cases argument with
  | nil => exact congrArg Except.ok (Draft.andThen_silent draft).symm
  | cons word behind =>
      unfold readArgument
      dsimp only
      cases Word.read level word with
      | known flag attached => exact readFlag_apart level draft word flag attached behind
      | unknown => rfl
      | ambiguous spellings => rfl
      | argument => exact congrArg Except.ok (takeArgument_apart level draft word)

/-! ## The log file that arguments name -/

/-- The log file that an argument names, with the flag and the path in one word or in two. -/
def logFileOf? (level : Level) : List String → Option Location
  | [] => none
  | word :: behind =>
      match Word.read level word with
      | .known .logFile attached => (attached.or behind.head?).map Location.ofText
      | _ => none

/-- The log file that arguments name: the last one counts. -/
def lastLogFile? (level : Level) (items : List (List String)) : Option Location :=
  (items.filterMap (logFileOf? level)).getLast?

theorem Draft.logFile_setSwitch {flag : Flag} {next : Draft}
    (h : draft.setSwitch level flag = .ok next) : next.logFile = draft.logFile := by
  cases flag <;> cases h <;> rfl

theorem Draft.logFile_setSwitches {flags : List Flag} {next : Draft}
    (h : draft.setSwitches level flags = .ok next) : next.logFile = draft.logFile := by
  unfold setSwitches at h
  induction flags generalizing draft with
  | nil => cases h; rfl
  | cons flag flags ih =>
      obtain ⟨middle, hfirst, hrest⟩ := Outcome.bind_eq_ok_iff.mp h
      rw [ih hrest, logFile_setSwitch hfirst]

theorem Draft.logFile_setValue {flag : Flag} {value : String} {next : Draft}
    (hflag : flag ≠ .logFile) (h : draft.setValue level flag value = .ok next) :
    next.logFile = draft.logFile := by
  cases flag with
  | logFile => exact absurd rfl hflag
  | sensitivity =>
      obtain ⟨name, -, hset⟩ := Outcome.bind_eq_ok_iff.mp h
      cases hset
      rfl
  | maxTags =>
      obtain ⟨n, -, hset⟩ := Outcome.bind_eq_ok_iff.mp h
      cases hset
      rfl
  | port =>
      obtain ⟨n, -, hset⟩ := Outcome.bind_eq_ok_iff.mp h
      cases hset
      rfl
  | _ => cases h; rfl

/-- What comes of reading a flag: its value is taken, or it stands for some switches. -/
theorem readFlag_cases {flag : Flag} {attached : Option String} {rest : List String} {next : Draft}
    (h : readFlag level draft word flag attached rest = .ok next) :
    (∃ value, attached.or rest.head? = some value ∧
        draft.setValue level flag value = .ok next) ∨
      flag.takesValue = false ∧ ∃ flags, draft.setSwitches level flags = .ok next := by
  unfold readFlag at h
  split at h
  · left
    cases attached with
    | some value =>
        rw [readValue_attached] at h
        exact ⟨value, rfl, h⟩
    | none =>
        cases rest with
        | nil => cases h
        | cons value rest =>
            unfold readValue at h
            dsimp only at h
            split at h
            · exact ⟨value, rfl, h⟩
            · cases h
  · next htakes =>
      refine .inr ⟨Bool.eq_false_iff.mpr htakes, ?_⟩
      cases attached with
      | none => exact ⟨[flag], Outcome.bind_eq_ok_iff.mpr ⟨next, h, rfl⟩⟩
      | some attached =>
          unfold readSwitch at h
          dsimp only at h
          split at h
          · cases h
          · obtain ⟨flags, -, hset⟩ := Outcome.bind_eq_ok_iff.mp h
            exact ⟨flags, hset⟩

theorem logFile_readFlag {flag : Flag} {attached : Option String} {rest : List String}
    {next : Draft} (hflag : flag ≠ .logFile)
    (h : readFlag level draft word flag attached rest = .ok next) :
    next.logFile = draft.logFile := by
  rcases readFlag_cases h with ⟨value, -, hset⟩ | ⟨-, flags, hset⟩
  · exact Draft.logFile_setValue hflag hset
  · exact Draft.logFile_setSwitches hset

theorem logFile_readFlag_logFile {attached : Option String} {rest : List String} {next : Draft}
    (h : readFlag level draft word .logFile attached rest = .ok next) :
    next.logFile = ((attached.or rest.head?).map Location.ofText).or draft.logFile := by
  rcases readFlag_cases h with ⟨value, hvalue, hset⟩ | ⟨hwrong, -⟩
  · rw [hvalue]
    cases hset
    rfl
  · cases hwrong

theorem logFile_readArgument {next : Draft} (h : readArgument level draft argument = .ok next) :
    next.logFile = (logFileOf? level argument).or draft.logFile := by
  cases argument with
  | nil => cases h; rfl
  | cons word behind =>
      unfold readArgument at h
      unfold logFileOf?
      dsimp only at h ⊢
      cases hread : Word.read level word with
      | known flag attached =>
          rw [hread] at h
          by_cases hflag : flag = .logFile
          · subst hflag
            exact logFile_readFlag_logFile h
          · rw [logFile_readFlag hflag h]
            split
            · next hsame =>
                cases hsame
                exact absurd rfl hflag
            · rfl
      | unknown => rw [hread] at h; cases h; rfl
      | ambiguous spellings => rw [hread] at h; cases h; rfl
      | argument =>
          rw [hread] at h
          cases h
          unfold takeArgument
          split <;> rfl

theorem logFile_readArguments {items : List (List String)} {result : Draft}
    (h : items.foldlM (readArgument level) draft = .ok result) :
    result.logFile = (lastLogFile? level items).or draft.logFile := by
  unfold lastLogFile?
  induction items generalizing draft with
  | nil => cases h; rfl
  | cons argument items ih =>
      obtain ⟨next, hfirst, hrest⟩ := Outcome.bind_eq_ok_iff.mp h
      rw [ih hrest, logFile_readArgument hfirst]
      cases hfile : logFileOf? level argument with
      | none => rw [List.filterMap_cons_none hfile, Option.none_or]
      | some file =>
          rw [List.filterMap_cons_some hfile, List.getLast?_cons]
          cases (items.filterMap (logFileOf? level)).getLast? <;> rfl

/-! ## Flags put in -/

/-- A flag for logging, as it is written. -/
inductive LoggingFlag
  | verbose (spelling : String) (h : spelling ∈ Flag.verbose.spellings)
  | logFile (path : String) (h : IsArgument path)

namespace LoggingFlag

/-- The words of a flag. -/
def words : LoggingFlag → List String
  | verbose spelling _ => [spelling]
  | logFile path _ => ["--log-file", path]

/-- The flag asks for more records. -/
def isVerbose : LoggingFlag → Bool
  | verbose .. => true
  | logFile .. => false

/-- The log file that a flag names. -/
def file? : LoggingFlag → Option Location
  | verbose .. => none
  | logFile path _ => some (.ofText path)

/-- The log file that flags name: the last one counts. -/
def lastFile? (flags : List LoggingFlag) : Option Location := (flags.filterMap file?).getLast?

/-- What a flag does to a draft. -/
def set (draft : Draft) : LoggingFlag → Draft
  | verbose .. => { draft with verbose := true }
  | logFile path _ => { draft with logFile := some (.ofText path) }

theorem read_verbose {spelling : String} (h : spelling ∈ Flag.verbose.spellings) (level : Level) :
    Word.read level spelling = .known .verbose none := by
  have hboth : spelling = "-v" ∨ spelling = "--verbose" := by simpa [Flag.spellings] using h
  rcases hboth with rfl | rfl <;> cases level <;> decide

theorem read_logFile (level : Level) : Word.read level "--log-file" = .known .logFile none := by
  cases level <;> decide

theorem ne_dashes_of_verbose {spelling : String} (h : spelling ∈ Flag.verbose.spellings) :
    spelling ≠ "--" := by
  rintro rfl
  exact absurd h (by decide)

theorem ne_dashes (flag : LoggingFlag) : "--" ∉ flag.words := by
  cases flag with
  | verbose spelling h =>
      exact fun hmem => ne_dashes_of_verbose h (List.mem_singleton.mp hmem).symm
  | logFile path h =>
      intro hmem
      rcases List.mem_cons.mp hmem with hflag | hpath
      · exact absurd hflag (by decide)
      · exact h.ne_dashes (List.mem_singleton.mp hpath).symm

theorem read_ne_ambiguous (flag : LoggingFlag) (level : Level) :
    ∀ word ∈ flag.words, ∀ spellings, Word.read level word ≠ .ambiguous spellings := by
  intro word hword spellings
  cases flag with
  | verbose spelling h =>
      rw [List.mem_singleton.mp hword, read_verbose h]
      exact Word.noConfusion
  | logFile path h =>
      rcases List.mem_cons.mp hword with rfl | hpath
      · rw [read_logFile]
        exact Word.noConfusion
      · rw [List.mem_singleton.mp hpath, Word.read_of_isArgument h]
        exact Word.noConfusion

theorem isComplete (flag : LoggingFlag) (level : Level) : IsComplete level flag.words := by
  cases flag with
  | verbose spelling h =>
      refine .single ?_
      unfold takesNext
      rw [read_verbose h]
      rfl
  | logFile path h =>
      refine .pair ?_ path
      unfold takesNext
      rw [read_logFile]
      rfl

/-- A flag for logging is read at every level, and it does what it says. -/
theorem readFlag_words (flag : LoggingFlag) (level : Level) (draft : Draft) :
    readArgument level draft flag.words = .ok (flag.set draft) := by
  cases flag with
  | verbose spelling h =>
      rw [words, readArgument, read_verbose h]
      rfl
  | logFile path h =>
      have htakes : Flag.logFile.takesValue = true := rfl
      rw [words, readArgument, read_logFile]
      dsimp only
      rw [readFlag, if_pos htakes]
      exact if_pos (h.isValue level)

theorem logFileOf?_words (flag : LoggingFlag) (level : Level) :
    logFileOf? level flag.words = flag.file? := by
  cases flag with
  | verbose spelling h =>
      rw [words, logFileOf?, read_verbose h]
      rfl
  | logFile path h =>
      rw [words, logFileOf?, read_logFile]
      rfl

end LoggingFlag

/-- Flags for logging are put between the arguments behind a command, each of the two in its order. -/
inductive Inserted : List (List String) → List LoggingFlag → List (List String) → Prop
  | nil : Inserted [] [] []
  | argument (argument : List String) {own : List (List String)} {flags : List LoggingFlag}
      {items : List (List String)} (h : Inserted own flags items) :
      Inserted (argument :: own) flags (argument :: items)
  | flag (flag : LoggingFlag) {own : List (List String)} {flags : List LoggingFlag}
      {items : List (List String)} (h : Inserted own flags items) :
      Inserted own (flag :: flags) (flag.words :: items)

section Inserted

variable {flags : List LoggingFlag} {groups items : List (List String)}

theorem Inserted.mem (h : Inserted groups flags items) (hmem : argument ∈ items) :
    argument ∈ groups ∨ ∃ flag : LoggingFlag, argument = flag.words := by
  induction h with
  | nil => exact absurd hmem List.not_mem_nil
  | argument first h ih =>
      rcases List.mem_cons.mp hmem with rfl | hrest
      · exact .inl List.mem_cons_self
      · exact (ih hrest).imp_left (List.mem_cons_of_mem _)
  | flag flag h ih =>
      rcases List.mem_cons.mp hmem with rfl | hrest
      · exact .inr ⟨flag, rfl⟩
      · exact ih hrest

theorem Inserted.isComplete (h : Inserted groups flags items)
    (hgroups : ∀ argument ∈ groups, IsComplete level argument) :
    ∀ argument ∈ items, IsComplete level argument := by
  intro argument hmem
  rcases h.mem hmem with hown | ⟨flag, rfl⟩
  · exact hgroups argument hown
  · exact flag.isComplete level

/-- A word of the line with the flags is one of the line without them, or one of a flag. -/
theorem Inserted.mem_flatten (h : Inserted groups flags items) (hword : word ∈ items.flatten) :
    word ∈ groups.flatten ∨ ∃ flag : LoggingFlag, word ∈ flag.words := by
  obtain ⟨argument, hargument, hmem⟩ := List.mem_flatten.mp hword
  rcases h.mem hargument with hown | ⟨flag, rfl⟩
  · exact .inl (List.mem_flatten.mpr ⟨argument, hown, hmem⟩)
  · exact .inr ⟨flag, hmem⟩

/-- Where the own arguments name no log file, the flags do. -/
theorem Inserted.filterMap_logFileOf? (h : Inserted groups flags items)
    (hown : groups.filterMap (logFileOf? level) = []) :
    items.filterMap (logFileOf? level) = flags.filterMap LoggingFlag.file? := by
  induction h with
  | nil => rfl
  | argument first h ih =>
      rw [List.filterMap_eq_nil_iff] at hown
      rw [List.filterMap_cons_none (hown first List.mem_cons_self)]
      exact ih (List.filterMap_eq_nil_iff.mpr fun other hother =>
        hown other (List.mem_cons_of_mem _ hother))
  | flag flag h ih =>
      rw [List.filterMap_cons, List.filterMap_cons, flag.logFileOf?_words level, ih hown]

/-- A draft that differs from another one in logging only. `said` tells whether the flags read so far
ask for more records. -/
structure Tracks (said : Bool) (draft other : Draft) : Prop where
  silent : other.silent = draft.silent
  verbose : other.verbose = (draft.verbose || said)

theorem Tracks.readArgument {said : Bool} {other next : Draft} (h : Tracks said draft other)
    (hread : readArgument level draft argument = .ok next) :
    ∃ last, readArgument level other argument = .ok last ∧ Tracks said next last := by
  rw [isApart_readArgument level draft argument] at hread
  rw [isApart_readArgument level other argument, h.silent]
  cases hstep : Command.readArgument level draft.silent argument with
  | error stop => rw [hstep] at hread; cases hread
  | ok later =>
      rw [hstep] at hread
      cases hread
      refine ⟨other.andThen later, rfl, rfl, ?_⟩
      change (later.verbose || other.verbose) = ((later.verbose || draft.verbose) || said)
      rw [h.verbose, Bool.or_assoc]

theorem Tracks.set {said : Bool} {other : Draft} (h : Tracks said draft other)
    (flag : LoggingFlag) : Tracks (said || flag.isVerbose) draft (flag.set other) := by
  cases flag with
  | verbose spelling hspelling => exact ⟨h.silent, by simp [LoggingFlag.set, LoggingFlag.isVerbose]⟩
  | logFile path hpath =>
      refine ⟨h.silent, ?_⟩
      rw [LoggingFlag.isVerbose, Bool.or_false]
      exact h.verbose

/-- Arguments that are read are read with flags between them as well, and only logging differs. -/
theorem Inserted.tracks (h : Inserted groups flags items) {said : Bool} {other result : Draft}
    (htracks : Tracks said draft other)
    (hreads : groups.foldlM (Command.readArgument level) draft = .ok result) :
    ∃ last, items.foldlM (Command.readArgument level) other = .ok last ∧
      Tracks (said || flags.any LoggingFlag.isVerbose) result last := by
  induction h generalizing draft other said with
  | nil =>
      cases hreads
      exact ⟨other, rfl, by simpa using htracks⟩
  | argument first h ih =>
      obtain ⟨next, hfirst, hrest⟩ := Outcome.bind_eq_ok_iff.mp hreads
      obtain ⟨middle, hmiddle, hnext⟩ := htracks.readArgument hfirst
      obtain ⟨last, hlast, hdone⟩ := ih hnext hrest
      exact ⟨last, Outcome.bind_eq_ok_iff.mpr ⟨middle, hmiddle, hlast⟩, hdone⟩
  | flag flag h ih =>
      obtain ⟨last, hlast, hdone⟩ := ih (htracks.set flag) hreads
      refine ⟨last, Outcome.bind_eq_ok_iff.mpr ⟨_, flag.readFlag_words level other, hlast⟩, ?_⟩
      rw [List.any_cons, ← Bool.or_assoc]
      exact hdone

end Inserted

/-! ## The whole command line -/

theorem ne_ambiguous_of_checkWords (hdashes : "--" ∉ own) (h : checkWords level own = .ok ()) :
    ∀ word ∈ own, ∀ spellings, Word.read level word ≠ .ambiguous spellings := by
  induction own with
  | nil => exact fun _ hmem => absurd hmem List.not_mem_nil
  | cons word rest ih =>
      rw [List.mem_cons, not_or] at hdashes
      rw [checkWords, if_neg (Ne.symm hdashes.1)] at h
      split at h
      · cases h
      · next hread => exact List.forall_mem_cons.mpr ⟨hread, ih hdashes.2 h⟩

theorem cases_command (hlevel : level ∈ Level.commands) :
    level = .generate ∨ level = .status ∨ level = .serve := by
  simpa [Level.commands] using hlevel

theorem read_command (hlevel : level ∈ Level.commands) :
    level.word ≠ "--" ∧ Word.read .program level.word = .argument := by
  rcases cases_command hlevel with rfl | rfl | rfl <;> decide

theorem readProgram_word (hword : word ≠ "--") (draft : Draft) (rest : List String) :
    readProgram draft (word :: rest) =
      match Word.read .program word with
      | .known flag attached => do
          readProgram (← readFlag .program draft word flag attached rest)
            (behindFlag flag attached rest)
      | .unknown | .ambiguous _ => readProgram (draft.addExtras [word]) rest
      | .argument => .ok (draft, some (word, rest)) :=
  readProgram.eq_4 draft word rest (fun hsame _ => hword hsame) hword

theorem LoggingFlag.readProgram_words (flag : LoggingFlag) (draft : Draft) (rest : List String) :
    readProgram draft (flag.words ++ rest) = readProgram (flag.set draft) rest := by
  cases flag with
  | verbose spelling h =>
      rw [words, List.singleton_append, readProgram_word (ne_dashes_of_verbose h), read_verbose h]
      rfl
  | logFile path h =>
      have hflag : readFlag .program draft "--log-file" .logFile none (path :: rest) =
          .ok (LoggingFlag.set draft (.logFile path h)) := if_pos (h.isValue .program)
      rw [words, List.cons_append, List.singleton_append, readProgram_word (by decide), read_logFile]
      dsimp only
      rw [hflag]
      rfl

/-- The flags in front of a command are read one after the other, up to the command. -/
theorem readProgram_flags (hlevel : level ∈ Level.commands) (flags : List LoggingFlag)
    (draft : Draft) (rest : List String) :
    readProgram draft (flags.flatMap LoggingFlag.words ++ level.word :: rest) =
      .ok (flags.foldl LoggingFlag.set draft, some (level.word, rest)) := by
  induction flags generalizing draft with
  | nil =>
      obtain ⟨hword, hread⟩ := read_command hlevel
      rw [List.flatMap_nil, List.nil_append, readProgram_word hword, hread]
      rfl
  | cons flag flags ih =>
      rw [List.flatMap_cons, List.append_assoc, flag.readProgram_words, ih, List.foldl_cons]

/-- The words behind a command are read at its level, from what the flags in front of it say. -/
theorem readCommandLine_command (hlevel : level ∈ Level.commands) (flags : List LoggingFlag)
    (rest : List String) :
    readCommandLine (flags.flatMap LoggingFlag.words ++ level.word :: rest) = (do
      checkWords .program (flags.flatMap LoggingFlag.words ++ level.word :: rest)
      checkWords level rest
      let draft ← readArguments level (flags.foldl LoggingFlag.set {}) rest
      draft.invocation level) := by
  unfold readCommandLine
  rw [readProgram_flags hlevel]
  refine congrArg _ (funext fun _ => ?_)
  rcases cases_command hlevel with rfl | rfl | rfl <;> rfl

theorem Draft.invocation_eq_ok_iff {invocation : Invocation} :
    draft.invocation level = .ok invocation ↔
      draft.extras = [] ∧ invocation = ⟨draft.verbose, draft.logFile, draft.request level⟩ := by
  unfold Draft.invocation
  rw [← List.isEmpty_iff]
  split
  · next h => simp [h, eq_comm]
  · next h => simp [h]

/-- What a draft asks for but for logging. -/
theorem Draft.eq_of_silent {other : Draft} (h : other.silent = draft.silent) (level : Level) :
    other.request level = draft.request level ∧ other.extras = draft.extras := by
  have hrequest : ∀ draft : Draft, draft.silent.request level = draft.request level := by
    intro draft
    cases level <;> rfl
  have hextras : other.silent.extras = draft.silent.extras := by rw [h]
  exact ⟨by rw [← hrequest, h, hrequest], hextras⟩

/-- What the flags in front of a command say. -/
theorem foldl_set (flags : List LoggingFlag) (draft : Draft) :
    Tracks (flags.any LoggingFlag.isVerbose) draft (flags.foldl LoggingFlag.set draft) ∧
      (flags.foldl LoggingFlag.set draft).logFile = (LoggingFlag.lastFile? flags).or draft.logFile := by
  induction flags using List.reverseRecOn with
  | nil => exact ⟨⟨rfl, by simp⟩, rfl⟩
  | append_singleton flags flag ih =>
      rw [List.foldl_append, List.foldl_cons, List.foldl_nil, List.any_append, List.any_cons,
        List.any_nil, Bool.or_false]
      refine ⟨ih.1.set flag, ?_⟩
      unfold LoggingFlag.lastFile? at ih ⊢
      rw [List.filterMap_append]
      cases flag with
      | verbose spelling h => simpa [LoggingFlag.set, LoggingFlag.file?] using ih.2
      | logFile path h => simp [LoggingFlag.set, LoggingFlag.file?]

section Line

variable (hlevel : level ∈ Level.commands) (before : List LoggingFlag) {behind : List LoggingFlag}
  {items : List (List String)} (hinserted : Inserted (arguments level own) behind items)

include hlevel hinserted

/-- No word of the command line is the beginning of several flags. -/
theorem checkWords_inserted (hdashes : "--" ∉ own)
    (hprogram : checkWords .program (level.word :: own) = .ok ())
    (hcommand : checkWords level own = .ok ()) :
    checkWords .program (before.flatMap LoggingFlag.words ++ level.word :: items.flatten) = .ok () ∧
      checkWords level items.flatten = .ok () := by
  obtain ⟨hword, -⟩ := read_command hlevel
  have hmem : ∀ word ∈ items.flatten, word ∈ own ∨ ∃ flag : LoggingFlag, word ∈ flag.words := by
    intro word hitem
    have h := hinserted.mem_flatten hitem
    rwa [flatten_arguments] at h
  have hwords := ne_ambiguous_of_checkWords
    (by rw [List.mem_cons, not_or]; exact ⟨hword.symm, hdashes⟩) hprogram
  refine ⟨checkWords_eq_ok fun word hline => ?_, checkWords_eq_ok fun word hitem => ?_⟩
  · rcases List.mem_append.mp hline with hflag | hline
    · obtain ⟨flag, -, hflag⟩ := List.mem_flatMap.mp hflag
      exact flag.read_ne_ambiguous .program word hflag
    rcases List.mem_cons.mp hline with rfl | hitem
    · exact hwords _ List.mem_cons_self
    rcases hmem word hitem with hown | ⟨flag, hflag⟩
    · exact hwords word (List.mem_cons_of_mem _ hown)
    · exact flag.read_ne_ambiguous .program word hflag
  · rcases hmem word hitem with hown | ⟨flag, hflag⟩
    · exact ne_ambiguous_of_checkWords hdashes hcommand word hown
    · exact flag.read_ne_ambiguous level word hflag

/-- Flags for logging can stand in front of a command and between any two arguments behind it. They
change what is said about logging and nothing else. Of the log files that are named behind the
command the last one counts, and if there is none the last one in front of it. So if the command's
own arguments name none, it makes no difference where the flags stand. -/
theorem readCommandLine_inserted (hdashes : "--" ∉ own) {invocation : Invocation}
    (hreads : readCommandLine (level.word :: own) = .ok invocation) :
    readCommandLine (before.flatMap LoggingFlag.words ++ level.word :: items.flatten) =
        .ok { request := invocation.request
              verbose := invocation.verbose || (before ++ behind).any LoggingFlag.isVerbose
              logFile := (lastLogFile? level items).or (LoggingFlag.lastFile? before) } ∧
      (invocation.logFile = none →
        (lastLogFile? level items).or (LoggingFlag.lastFile? before) =
          LoggingFlag.lastFile? (before ++ behind)) := by
  -- What the command line without the flags comes to.
  have hline := (readCommandLine_command hlevel [] own).symm.trans hreads
  obtain ⟨_, hprogram, hline⟩ := Outcome.bind_eq_ok_iff.mp hline
  obtain ⟨_, hcommand, hline⟩ := Outcome.bind_eq_ok_iff.mp hline
  obtain ⟨draft, harguments, hdraft⟩ := Outcome.bind_eq_ok_iff.mp hline
  obtain ⟨hextras, rfl⟩ := Draft.invocation_eq_ok_iff.mp hdraft
  have hcomplete := isComplete_of_reads hdashes harguments
  have hown : (arguments level own).foldlM (readArgument level) {} = .ok draft := by
    rw [← readArguments_flatten hcomplete (by rwa [flatten_arguments]), flatten_arguments]
    exact harguments
  -- What the command line with the flags comes to.
  obtain ⟨hfront, hfile⟩ := foldl_set before {}
  obtain ⟨last, hlast, htracks⟩ := hinserted.tracks hfront hown
  have hitems : "--" ∉ items.flatten := by
    intro hmem
    rcases hinserted.mem_flatten hmem with hword | ⟨flag, hflag⟩
    · rw [flatten_arguments] at hword
      exact hdashes hword
    · exact flag.ne_dashes hflag
  obtain ⟨hcheck, hcheckBehind⟩ :=
    checkWords_inserted hlevel before hinserted hdashes hprogram hcommand
  obtain ⟨hrequest, hlastExtras⟩ := Draft.eq_of_silent htracks.silent level
  have hlogFile := logFile_readArguments hlast
  rw [hfile, Option.or_none] at hlogFile
  refine ⟨?_, fun hnone => ?_⟩
  · rw [readCommandLine_command hlevel, hcheck, hcheckBehind]
    change (readArguments level _ items.flatten).bind (fun draft => draft.invocation level) = _
    rw [readArguments_flatten (hinserted.isComplete hcomplete) hitems, hlast]
    refine Draft.invocation_eq_ok_iff.mpr ⟨hlastExtras.trans hextras, ?_⟩
    rw [hlogFile, htracks.verbose, hrequest, List.any_append]
  · have hdraftFile := logFile_readArguments hown
    have hdraftNone : draft.logFile = none := hnone
    rw [hdraftNone, Option.or_none] at hdraftFile
    have hempty : (arguments level own).filterMap (logFileOf? level) = [] :=
      List.getLast?_eq_none_iff.mp hdraftFile.symm
    unfold lastLogFile? LoggingFlag.lastFile?
    rw [hinserted.filterMap_logFileOf? hempty, List.filterMap_append, List.getLast?_append]

end Line

/-- A flag in front of the command and two behind it, one before the path and one before a flag of the
command. -/
theorem readCommandLine_inserted_around :
    readCommandLine ["--log-file", "a.log", "generate", "-v", "proj", "--log-file", "b log",
        "--exclude", "x"] =
      .ok { request := .generate { path := "proj", excludes := ["x"] }
            verbose := true
            logFile := some (.ofText "b log") } :=
  have hinserted : Inserted (arguments .generate ["proj", "--exclude", "x"])
      [.verbose "-v" (by decide), .logFile "b log" (by decide)]
      [["-v"], ["proj"], ["--log-file", "b log"], ["--exclude", "x"]] :=
    .flag (.verbose "-v" _) (.argument ["proj"] (.flag (.logFile "b log" _)
      (.argument ["--exclude", "x"] .nil)))
  (readCommandLine_inserted (by decide) [.logFile "a.log" (by decide)] hinserted (by decide)
    (show readCommandLine ["generate", "proj", "--exclude", "x"] =
      .ok ⟨false, none, .generate { path := "proj", excludes := ["x"] }⟩ by decide +kernel)).1

end SourceAtlas.Command
