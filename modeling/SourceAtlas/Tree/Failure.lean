import SourceAtlas.Text.Draft

/-!
# Failures of the disk

What can go wrong with a path, with the wording that messages and logs show.
-/

namespace SourceAtlas

/-- Why the system refuses an operation. -/
inductive Errno
  | noEntry
  | busy
  | exists
  | notDirectory
  | isDirectory
  | nameTooLong
  | loop
  deriving DecidableEq, Repr

namespace Errno

def number : Errno → Nat
  | noEntry => 2
  | busy => 16
  | «exists» => 17
  | notDirectory => 20
  | isDirectory => 21
  | nameTooLong => 36
  | loop => 40

def wording : Errno → String
  | noEntry => "No such file or directory"
  | busy => "Device or resource busy"
  | «exists» => "File exists"
  | notDirectory => "Not a directory"
  | isDirectory => "Is a directory"
  | nameTooLong => "File name too long"
  | loop => "Too many levels of symbolic links"

/-- The refusal says that there is nothing at a path. -/
def isAbsence : Errno → Bool
  | noEntry | notDirectory | loop => true
  | _ => false

end Errno

/-- Why bytes and text do not go together. -/
inductive CodingError
  /-- The bytes are no text. -/
  | undecodable (cause : Text.Utf8.DecodeError)
  /-- The text has no encoding. -/
  | unencodable (cause : Text.EncodeError)
  deriving DecidableEq, Repr

def CodingError.message : CodingError → String
  | undecodable cause => cause.message
  | unencodable cause => cause.message

/-- Why something cannot be done with a path. -/
inductive DiskFailure
  /-- The system refuses an operation on a path, or from one path to another. -/
  | refused (errno : Errno) (path : String) (target : Option String := none)
  /-- The path holds a NUL character. -/
  | nulByte
  /-- The path has no last segment. -/
  | emptyName (path : String)
  /-- The file is no text, or the text that goes into it has no encoding. -/
  | encoding (cause : CodingError)
  /-- The links on the path lead in a circle. -/
  | linkLoop (path : String)
  /-- The links on the path lie too deep inside each other. -/
  | tooDeep
  /-- Nobody has the home directory that the path starts with. -/
  | noHome
  deriving DecidableEq, Repr

namespace DiskFailure

def message : DiskFailure → String
  | refused errno path target =>
      "[Errno " ++ toString errno.number ++ "] " ++ errno.wording ++ ": " ++ Text.quoted path
        ++ (match target with
            | some target => " -> " ++ Text.quoted target
            | none => "")
  | nulByte => "embedded null byte"
  | emptyName path => "PosixPath(" ++ Text.quoted path ++ ") has an empty name"
  | encoding cause => cause.message
  | linkLoop path => "Symlink loop from " ++ Text.quoted path
  | tooDeep => "maximum recursion depth exceeded"
  | noHome => "Could not determine home directory."

/-- The failure concerns one file only; the ones that concern the path itself are passed on. -/
def isLocal : DiskFailure → Bool
  | linkLoop _ | tooDeep | noHome => false
  | _ => true

def isRefusal : DiskFailure → Bool
  | refused .. => true
  | _ => false

end DiskFailure

end SourceAtlas
