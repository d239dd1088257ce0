import SourceAtlas.Text.Split

/-!
# Slash-separated paths as text

Project files are named by texts with `/` between segments. These functions look only at the text:
the last segment, the part before it, the extension, and the normal form without `.`, `..` and
empty segments.
-/

namespace SourceAtlas.Path

open SourceAtlas.Text

/-- The segments of a path; `n` slashes separate `n + 1` of them. -/
def segments (path : String) : List String := splitString '/' path

def toSlashes (path : String) : String :=
  String.ofList (path.toList.map fun c => if c = '\\' then '/' else c)

def lastSegment (path : List Char) : List Char :=
  (path.reverse.takeWhile (· != '/')).reverse

/-- The part of a text up to and including its last slash. -/
def beforeLastSegment (path : List Char) : List Char :=
  (path.reverse.dropWhile (· != '/')).reverse

theorem beforeLastSegment_append_lastSegment (path : List Char) :
    beforeLastSegment path ++ lastSegment path = path := by
  rw [beforeLastSegment, lastSegment, ← List.reverse_append, List.takeWhile_append_dropWhile,
    List.reverse_reverse]

def baseName (path : String) : String := String.ofList (lastSegment path.toList)

/-- A directory part without its trailing slashes, unless it consists of slashes only. -/
def trimDirectory (dir : List Char) : List Char :=
  if dir.all (· == '/') then dir else (dir.reverse.dropWhile (· == '/')).reverse

def dirName (path : List Char) : List Char := trimDirectory (beforeLastSegment path)

/-- Split a file name before its last dot. Leading dots do not start an extension. -/
def splitName (name : List Char) : List Char × List Char :=
  let extension := name.reverse.takeWhile (· != '.')
  let stem := (name.reverse.dropWhile (· != '.')).tail.reverse
  if stem.all (· == '.') then (name, []) else (stem, '.' :: extension.reverse)

/-- Split a path before the last dot of its last segment. -/
def splitExtension (path : List Char) : List Char × List Char :=
  let (stem, extension) := splitName (lastSegment path)
  (beforeLastSegment path ++ stem, extension)

def withoutExtension (path : List Char) : List Char := (splitExtension path).1

/-- The extension of a path, with its dot. -/
def extension (path : List Char) : List Char := (splitExtension path).2

def stem (path : String) : String := String.ofList (splitName (lastSegment path.toList)).1

/-- A path read from a directory; an absolute one stands for itself. -/
def joinText (dir path : List Char) : List Char :=
  match path with
  | '/' :: _ => path
  | _ =>
      match dir.getLast? with
      | none => path
      | some '/' => dir ++ path
      | some _ => dir ++ '/' :: path

/-- Put a segment on top of the normalized ones, given last first. A parent step removes the last
segment; above an absolute root it does nothing, above a relative one it stays. -/
def pushSegment (rooted : Bool) (done : List (List Char)) (segment : List Char) :
    List (List Char) :=
  if segment = [] ∨ segment = ['.'] then done
  else if segment = ['.', '.'] then
    match done with
    | [] => if rooted then [] else [segment]
    | last :: rest => if last = ['.', '.'] then segment :: done else rest
  else segment :: done

/-- The slashes that a normalized path starts with: exactly two stay two, more become one. -/
def leadingSlashes (path : List Char) : List Char :=
  match path with
  | '/' :: '/' :: '/' :: _ => ['/']
  | '/' :: '/' :: _ => ['/', '/']
  | '/' :: _ => ['/']
  | _ => []

/-- The path without empty segments, `.` and resolvable `..`. -/
def normalize (path : List Char) : List Char :=
  let slashes := leadingSlashes path
  let done := (split '/' path).foldl (pushSegment !slashes.isEmpty) []
  let text := slashes ++ join '/' done.reverse
  if text.isEmpty then ['.'] else text

end SourceAtlas.Path
