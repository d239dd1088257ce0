import SourceAtlas.Log

/-!
# Commands and their flags

The program has three commands. Each level of its command line, the program itself and every
command, has its own flags, usage and help.
-/

namespace SourceAtlas.Command

/-- What can stand behind dashes. -/
inductive Flag
  | help
  | verbose
  | logFile
  | sensitivity
  | maxTags
  | exclude
  | write
  | noTags
  | host
  | port
  deriving DecidableEq, Repr

/-- How a flag is written, the short spelling first. -/
def Flag.spellings : Flag → List String
  | help => ["-h", "--help"]
  | verbose => ["-v", "--verbose"]
  | logFile => ["--log-file"]
  | sensitivity => ["--sensitivity"]
  | maxTags => ["--max-tags"]
  | exclude => ["--exclude"]
  | write => ["--write"]
  | noTags => ["--no-tags"]
  | host => ["--host"]
  | port => ["--port"]

def Flag.text (flag : Flag) : String := "/".intercalate flag.spellings

def Flag.takesValue : Flag → Bool
  | help | verbose | write | noTags => false
  | logFile | sensitivity | maxTags | exclude | host | port => true

/-- A part of the command line with flags of its own. -/
inductive Level
  /-- In front of the command. -/
  | program
  | generate
  | status
  | serve
  deriving DecidableEq, Repr, Inhabited

namespace Level

def commands : List Level := [generate, status, serve]

def word : Level → String
  | program => Log.programName
  | generate => "generate"
  | status => "status"
  | serve => "serve"

def ofWord? (word : String) : Option Level := commands.find? fun command => command.word = word

/-- What the level is called in messages. -/
def title : Level → String
  | program => Log.programName
  | command => Log.programName ++ " " ++ command.word

def flags : Level → List Flag
  | program => [.help, .verbose, .logFile]
  | generate =>
      [.help, .verbose, .logFile, .sensitivity, .maxTags, .exclude, .write, .noTags]
  | status => [.help, .verbose, .logFile]
  | serve => [.help, .verbose, .logFile, .host, .port]

def takesPath : Level → Bool
  | generate | status => true
  | program | serve => false

/-- All spellings of flags at a level, each with its flag. -/
def spellings (level : Level) : List (String × Flag) :=
  level.flags.flatMap fun flag => flag.spellings.map fun spelling => (spelling, flag)

def flagOf? (level : Level) (spelling : String) : Option Flag := level.spellings.lookup spelling

end Level

end SourceAtlas.Command
