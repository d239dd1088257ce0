import SourceAtlas.Text.Quoted
import SourceAtlas.Text.Split

/-!
# Questions to git

A project in a git work tree is listed and searched by git. It answers with a text of paths, or it
fails in one of a few ways.
-/

namespace SourceAtlas.Git

inductive Query
  /-- The files of the project that are not ignored. -/
  | listing
  /-- Those of them that hold a tag marker. -/
  | search
  deriving DecidableEq, Repr

/-- The command line of a question. -/
def Query.arguments : Query → List String
  | listing => ["git", "ls-files", "-z", "--cached", "--others", "--exclude-standard"]
  | search => ["git", "grep", "--untracked", "-l", "-z", "-F", "@atlas-entrypoint:"]

def Query.text (query : Query) : String :=
  "[" ++ ", ".intercalate (query.arguments.map Text.quoted) ++ "]"

/-- Why git gives no answer. -/
inductive Failure
  /-- There is no git to ask. -/
  | missing
  /-- Git ends with a code that says so. -/
  | exited (code : Int)
  /-- The answer is no text. -/
  | undecodable
  | timedOut
  deriving DecidableEq, Repr

def Failure.message (query : Query) : Failure → String
  | missing => "git unavailable"
  | exited code =>
      "Command \x27" ++ query.text ++ "\x27 returned non-zero exit status " ++ toString code ++ "."
  | undecodable => "\x27utf-8\x27 codec can\x27t decode byte 0xff in position 0: invalid start byte"
  | timedOut => "Command \x27" ++ query.text ++ "\x27 timed out"

abbrev Reply := Except Failure String

structure Replies where
  listing : Reply := .error .missing
  search : Reply := .error .missing
  deriving Inhabited

/-- The paths of an answer, which ends each one with a NUL character. -/
def pathsOf (output : String) : List String :=
  (Text.splitString '\x00' output).filter fun path => !path.isEmpty

end SourceAtlas.Git
