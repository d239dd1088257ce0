import SourceAtlas.Text.Draft
import SourceAtlas.Text.Newline
import SourceAtlas.Text.Search

/-!
# Tag lines

An entrypoint tag is a line comment with a marker and a label. It begins a line, perhaps after
spaces and tabs, and ends before the next line break. A file carries at most the first one of them.
-/

namespace SourceAtlas.Tag

open Text

def marker : String := "@atlas-entrypoint:"

def isIndent (c : Char) : Bool := c == ' ' || c == '\t'

def isBreak (c : Char) : Bool := c == '\n' || c == '\r'

def skipIndent (text : List Char) : List Char := text.dropWhile isIndent

/-- What follows the start of a line comment. -/
def afterCommentStart? : List Char → Option (List Char)
  | '/' :: '/' :: rest => some rest
  | '#' :: rest => some rest
  | _ => none

/-- What follows the marker of a tag that begins the text. -/
def afterMarker? (text : List Char) : Option (List Char) :=
  (afterCommentStart? (skipIndent text)).bind fun rest =>
    dropStart? marker.toList (skipIndent rest)

/-- What follows a tag that begins the text: the label runs to the end of the line. -/
def afterTag? (text : List Char) : Option (List Char) :=
  (afterMarker? text).map fun label => label.dropWhile fun c => !isBreak c

structure Cut where
  before : List Char
  tag : List Char
  after : List Char
  deriving DecidableEq, Repr

/-- Cut a text around its first tag; `lineStart` tells whether the text begins a line. -/
def cutFrom (lineStart : Bool) : List Char → Option Cut
  | [] => none
  | c :: rest =>
      match if lineStart then afterTag? (c :: rest) else none with
      | some after => some ⟨[], (c :: rest).take ((c :: rest).length - after.length), after⟩
      | none => (cutFrom (c == '\n') rest).map fun cut => { cut with before := c :: cut.before }

def cut? (text : List Char) : Option Cut := cutFrom true text

def find? (text : List Char) : Option (List Char) := (cut? text).map (·.tag)

/-- A text without the line break that it starts with. -/
def dropBreak : List Char → List Char
  | '\r' :: '\n' :: rest => rest
  | '\n' :: rest => rest
  | text => text

/-- A text without its first tag and the line break behind it. -/
def strip (text : List Char) : List Char :=
  match cut? text with
  | some cut => cut.before ++ dropBreak cut.after
  | none => text

/-- Put a tag on top of a text in place of the first one in it. -/
def retag (tag : Draft) (text : List Char) : Draft := tag.append (lineEnding text ++ strip text)

end SourceAtlas.Tag
