import SourceAtlas.Service.Operation
import SourceAtlas.Text.Digit
import SourceAtlas.Text.Split

/-!
# Routes of the service

The operations of the service by path and method. A path with slashes too many at its end leads to
the same operation.
-/

namespace SourceAtlas.Service

/-- The operation at a path. -/
def Operation.atPath? (path : String) : Option Operation :=
  all.find? fun operation => operation.path = path

/-- What a method and a path lead to. -/
inductive Route
  | found (operation : Operation)
  /-- The operation at the path has another method. -/
  | wrongMethod
  | unknown
  deriving DecidableEq, Repr

namespace Route

/-- The text between the scheme and the query of a reference, without the host if it has one. -/
def pathText (reference : List Char) : List Char :=
  let path := reference.takeWhile fun c => c != '?' && c != '#'
  match path with
  | '/' :: '/' :: rest => rest.dropWhile (· != '/')
  | path => path

/-- Take dots out of the segments of a path; two dots take the segment in front of them along. -/
def withoutDots (segments : List (List Char)) : List (List Char) :=
  if segments.any fun s => s = ['.'] || s = ['.', '.'] then
    (segments.foldl (fun done s =>
      if s = ['.'] then done
      else if s = ['.', '.'] then (if done = [] ∨ done = [[]] then done else done.tail)
      else s :: done) []).reverse
  else segments

/-- A text with the characters that stand escaped in it. -/
def unescape : List Char → List Char
  | '%' :: a :: b :: rest =>
      match Text.hexValue? a, Text.hexValue? b with
      | some high, some low =>
          if high < 8 then Char.ofNat (high * 16 + low) :: unescape rest
          else '%' :: unescape (a :: b :: rest)
      | _, _ => '%' :: unescape (a :: b :: rest)
  | c :: rest => c :: unescape rest
  | [] => []
  termination_by text => text.length

/-- The path that a reference names. -/
def pathOf (reference : String) : List Char :=
  let text := '/' :: (pathText reference.toList).dropWhile (· == '/')
  let segments := withoutDots (Text.split '/' text)
  match unescape (Text.join '/' segments) with
  | [] => ['/']
  | path => path

/-- A path without the slashes at its end, unless it is the root. -/
def withoutSlashes (path : List Char) : List Char :=
  if path = ['/'] then path else (path.reverse.dropWhile (· == '/')).reverse

def ofReference (method reference : String) : Route :=
  match Operation.atPath? (String.ofList (withoutSlashes (pathOf reference))) with
  | none => .unknown
  | some operation =>
      if operation.method = method then .found operation else .wrongMethod

end Route

end SourceAtlas.Service
