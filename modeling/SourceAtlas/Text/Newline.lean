/-!
# Line breaks

A text is read with every `\r\n` and every lone `\r` turned into `\n`; documents are counted,
scanned and shown in that form.
-/

namespace SourceAtlas.Text

/-- Turn `\r\n` and lone `\r` into `\n`. -/
def translateNewlines : List Char → List Char
  | [] => []
  | '\r' :: '\n' :: rest => '\n' :: translateNewlines rest
  | '\r' :: rest => '\n' :: translateNewlines rest
  | c :: rest => c :: translateNewlines rest

/-- The number of lines: one more than the number of `\n`. -/
def lineCount (text : List Char) : Nat := text.count '\n' + 1

/-- Whether the first `\n` of the text ends a `\r\n`. -/
def firstBreakIsCrlf : List Char → Bool
  | [] => false
  | '\n' :: _ => false
  | '\r' :: '\n' :: _ => true
  | _ :: rest => firstBreakIsCrlf rest

/-- The line ending that a new first line of the text gets. -/
def lineEnding (text : List Char) : List Char :=
  if firstBreakIsCrlf text then ['\r', '\n'] else ['\n']

end SourceAtlas.Text
