import SourceAtlas.Command.Usage
import SourceAtlas.Command.Word
import SourceAtlas.Domain.Inference
import SourceAtlas.Path.Location
import SourceAtlas.Text.Quoted

/-!
# Reading the command line

The words in front of the command are read at the level of the program, those behind it at the level
of the command. Flags may stand between arguments; behind a word of two dashes there are none. The
flags for logging may stand at both levels, and what stands behind the command counts.
-/

namespace SourceAtlas.Command

structure GenerateOptions where
  path : String := "."
  sensitivity : Option String := none
  maxTags : Option Int := none
  excludes : List String := []
  write : Bool := false
  noTags : Bool := false
  deriving DecidableEq, Repr

inductive Request
  | generate (options : GenerateOptions)
  | status (path : String)
  | serve (host : String) (port : Int)
  deriving DecidableEq, Repr

/-- What a command line asks for. -/
structure Invocation where
  verbose : Bool
  logFile : Option Location
  request : Request
  deriving DecidableEq, Repr

/-- Why a command line asks for nothing. -/
inductive Stop
  /-- The help of a level is shown instead. -/
  | help (level : Level)
  | fault (level : Level) (message : String)
  deriving DecidableEq, Repr

/-- What has been read so far. -/
structure Draft where
  verbose : Bool := false
  logFile : Option Location := none
  path : Option String := none
  sensitivity : Option String := none
  maxTags : Option Int := none
  excludes : List String := []
  write : Bool := false
  noTags : Bool := false
  host : String := "127.0.0.1"
  port : Int := 8000
  /-- Words that have no place. -/
  extras : List String := []
  deriving DecidableEq, Repr

namespace Draft

def addExtras (draft : Draft) (words : List String) : Draft :=
  { draft with extras := draft.extras ++ words }

def flagFault (level : Level) (flag : Flag) (message : String) : Stop :=
  .fault level ("argument " ++ flag.text ++ ": " ++ message)

def integer (level : Level) (flag : Flag) (value : String) : Except Stop Int :=
  match Number.readInteger 10 value.toList with
  | some n => .ok n
  | none => .error (flagFault level flag ("invalid int value: " ++ Text.quoted value))

def sensitivityName (level : Level) (value : String) : Except Stop String :=
  if value ∈ Sensitivity.names then .ok value
  else
    .error (flagFault level .sensitivity
      ("invalid choice: " ++ Text.quoted value ++ " (choose from "
        ++ ", ".intercalate (Sensitivity.names.map Text.quoted) ++ ")"))

def setSwitch (level : Level) (draft : Draft) : Flag → Except Stop Draft
  | .help => .error (.help level)
  | .verbose => .ok { draft with verbose := true }
  | .write => .ok { draft with write := true }
  | .noTags => .ok { draft with noTags := true }
  | _ => .ok draft

def setValue (level : Level) (draft : Draft) (flag : Flag) (value : String) : Except Stop Draft :=
  match flag with
  | .logFile => .ok { draft with logFile := some (.ofText value) }
  | .sensitivity => do return { draft with sensitivity := some (← sensitivityName level value) }
  | .maxTags => do return { draft with maxTags := some (← integer level flag value) }
  | .exclude => .ok { draft with excludes := draft.excludes ++ [value] }
  | .host => .ok { draft with host := value }
  | .port => do return { draft with port := ← integer level flag value }
  | _ => .ok draft

/-- Set several switches in turn. -/
def setSwitches (level : Level) (draft : Draft) (flags : List Flag) : Except Stop Draft :=
  flags.foldlM (setSwitch level) draft

end Draft

/-- A text attached to a flag that takes none. -/
def ignoredText (level : Level) (flag : Flag) (attached : List Char) : Stop :=
  Draft.flagFault level flag
    ("ignored explicit argument " ++ Text.quoted (String.ofList attached))

/-- The switches that stand together behind one dash: the letters attached to a first one. What
stands behind an equals sign is a value, which no switch takes. -/
def attachedSwitches (level : Level) (flag : Flag) : List Char → Except Stop (List Flag)
  | [] => .ok [flag]
  | '=' :: value => .error (ignoredText level flag value)
  | letter :: rest =>
      match level.flagOf? (String.ofList ['-', letter]) with
      | some next => (attachedSwitches level next rest).map (flag :: ·)
      | none => .error (ignoredText level flag (letter :: rest))

/-- The word is written with two dashes. -/
def isLong (word : String) : Bool := Text.hasStart word "--"

/-- A flag without a value, perhaps with text attached to it. -/
def readSwitch (level : Level) (draft : Draft) (word : String) (flag : Flag) :
    Option String → Except Stop Draft
  | none => draft.setSwitch level flag
  | some attached =>
      if isLong word then .error (ignoredText level flag attached.toList)
      else do draft.setSwitches level (← attachedSwitches level flag (word.toList.drop 2))

def isValue (level : Level) (word : String) : Bool :=
  word != "--" && Word.read level word == .argument

/-- A flag with a value, which is attached to it or stands behind it. -/
def readValue (level : Level) (draft : Draft) (flag : Flag) (attached : Option String)
    (rest : List String) : Except Stop Draft :=
  match attached, rest with
  | some value, _ => draft.setValue level flag value
  | none, value :: _ =>
      if isValue level value then draft.setValue level flag value
      else .error (Draft.flagFault level flag "expected one argument")
  | none, [] => .error (Draft.flagFault level flag "expected one argument")

def readFlag (level : Level) (draft : Draft) (word : String) (flag : Flag)
    (attached : Option String) (rest : List String) : Except Stop Draft :=
  if flag.takesValue then readValue level draft flag attached rest
  else readSwitch level draft word flag attached

/-- What is left behind a flag and its value. -/
def behindFlag (flag : Flag) (attached : Option String) (rest : List String) : List String :=
  if flag.takesValue && attached.isNone then rest.tail else rest

theorem behindFlag_length_le (flag : Flag) (attached : Option String) (rest : List String) :
    (behindFlag flag attached rest).length ≤ rest.length := by
  unfold behindFlag
  split
  · simp
  · exact Nat.le_refl _

def ambiguousText (word : String) (spellings : List String) : String :=
  "ambiguous option: " ++ word ++ " could match " ++ ", ".intercalate spellings

/-- No word in front of two dashes may be the beginning of several flags. -/
def checkWords (level : Level) : List String → Except Stop Unit
  | [] => .ok ()
  | word :: rest =>
      if word = "--" then .ok ()
      else
        match Word.read level word with
        | .ambiguous spellings => .error (.fault level (ambiguousText word spellings))
        | _ => checkWords level rest

/-- Take an argument: the path of the project if it is free. -/
def takeArgument (level : Level) (draft : Draft) (word : String) : Draft :=
  if level.takesPath && draft.path.isNone then { draft with path := some word }
  else draft.addExtras [word]

/-- Take the words behind two dashes: the first one is the path if it is free. -/
def takeSeparated (level : Level) (draft : Draft) (rest : List String) : Draft :=
  if level.takesPath && draft.path.isNone then
    match rest with
    | [] => draft
    | word :: more => { draft with path := some word }.addExtras more
  else draft.addExtras ("--" :: rest)

def readArguments (level : Level) (draft : Draft) : List String → Except Stop Draft
  | [] => .ok draft
  | word :: rest =>
      if word = "--" then .ok (takeSeparated level draft rest)
      else
        match Word.read level word with
        | .known flag attached => do
            readArguments level (← readFlag level draft word flag attached rest)
              (behindFlag flag attached rest)
        | .unknown | .ambiguous _ => readArguments level (draft.addExtras [word]) rest
        | .argument =>
            match rest with
            -- Two dashes right behind the path belong to it; what follows them is left over.
            | "--" :: more =>
                if level.takesPath && draft.path.isNone then
                  .ok ((takeArgument level draft word).addExtras more)
                else readArguments level (takeArgument level draft word) ("--" :: more)
            | rest => readArguments level (takeArgument level draft word) rest
  termination_by words => words.length
  decreasing_by
    all_goals simp_wf
    all_goals first
      | omega
      | exact Nat.lt_succ_of_le (behindFlag_length_le _ _ _)
      | exact behindFlag_length_le _ _ _

/-- Read the words in front of the command; what comes with the draft is the command and the words
behind it. -/
def readProgram (draft : Draft) : List String → Except Stop (Draft × Option (String × List String))
  | [] => .ok (draft, none)
  | "--" :: [] => .ok (draft.addExtras ["--"], none)
  -- With words behind them, two dashes are taken for the command.
  | "--" :: rest => .ok (draft, some ("--", rest))
  | word :: rest =>
      match Word.read .program word with
      | .known flag attached => do
          readProgram (← readFlag .program draft word flag attached rest)
            (behindFlag flag attached rest)
      | .unknown | .ambiguous _ => readProgram (draft.addExtras [word]) rest
      | .argument => .ok (draft, some (word, rest))
  termination_by words => words.length
  decreasing_by
    all_goals simp_wf
    all_goals first
      | omega
      | exact Nat.lt_succ_of_le (behindFlag_length_le _ _ _)
      | exact behindFlag_length_le _ _ _

def Draft.request (draft : Draft) : Level → Request
  | .program | .generate =>
      .generate ⟨draft.path.getD ".", draft.sensitivity, draft.maxTags, draft.excludes, draft.write,
        draft.noTags⟩
  | .status => .status (draft.path.getD ".")
  | .serve => .serve draft.host draft.port

def missingCommand : Stop := .fault .program "the following arguments are required: command"

def unknownCommand (word : String) : Stop :=
  .fault .program
    ("argument command: invalid choice: " ++ Text.quoted word ++ " (choose from "
      ++ ", ".intercalate (Level.commands.map fun command => Text.quoted command.word) ++ ")")

/-- What a draft asks for, if every word had its place. -/
def Draft.invocation (draft : Draft) (level : Level) : Except Stop Invocation :=
  if draft.extras.isEmpty then .ok ⟨draft.verbose, draft.logFile, draft.request level⟩
  else .error (.fault .program ("unrecognized arguments: " ++ " ".intercalate draft.extras))

def readCommandLine (words : List String) : Except Stop Invocation := do
  checkWords .program words
  match ← readProgram {} words with
  | (_, none) => throw missingCommand
  | (draft, some (word, rest)) =>
      match Level.ofWord? word with
      | none => throw (unknownCommand word)
      | some level =>
          checkWords level rest
          (← readArguments level draft rest).invocation level

def Stop.output : Stop → String
  | help level => level.help
  | _ => ""

def Stop.errors : Stop → String
  | fault level message => level.usage ++ level.title ++ ": error: " ++ message ++ "\n"
  | _ => ""

def Stop.code : Stop → Nat
  | fault _ _ => 2
  | _ => 0

end SourceAtlas.Command
