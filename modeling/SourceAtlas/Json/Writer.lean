import SourceAtlas.Json.Value
import SourceAtlas.Number.Decimal
import SourceAtlas.Text.Quoted

/-!
# Writing JSON

Values are written without white space; characters outside printable ASCII are escaped.
-/

namespace SourceAtlas.Json

open Text

/-- The escape of one UTF-16 unit. -/
def unitEscape (unit : Nat) : List Char := '\\' :: 'u' :: hexDigits 4 unit

def writeChar (c : Char) : List Char :=
  if c = '\x22' ∨ c = '\\' then ['\\', c]
  else if c = '\n' then ['\\', 'n']
  else if 32 ≤ c.toNat ∧ c.toNat < 127 then [c]
  else if c.toNat < 0x10000 then unitEscape c.toNat
  else
    unitEscape (0xD800 + (c.toNat - 0x10000) / 1024) ++
      unitEscape (0xDC00 + (c.toNat - 0x10000) % 1024)

def writeString (text : String) : List Char :=
  '\x22' :: text.toList.flatMap writeChar ++ ['\x22']

/-- One place of a string with unpaired surrogates. -/
def writeMark : Mark → List Char
  | .char c => writeChar c
  | .surrogate code => unitEscape code

def writeDraft (draft : Draft) : List Char :=
  '\x22' :: draft.marks.flatMap writeMark ++ ['\x22']

mutual

def write : Json → List Char
  | .null => "null".toList
  | .bool true => "true".toList
  | .bool false => "false".toList
  | .int n => (toString n).toList
  | .float x => (Number.showDecimal x).toList
  | .string text => writeString text
  | .brokenString draft => writeDraft draft
  | .array [] => ['[', ']']
  | .array (item :: rest) => '[' :: write item ++ writeItems rest ++ [']']
  | .object [] => ['\x7b', '\x7d']
  | .object ((name, value) :: rest) =>
      '\x7b' :: writeString name ++ ':' :: write value ++ writeFields rest ++ ['\x7d']

/-- Further items of an array. -/
def writeItems : List Json → List Char
  | [] => []
  | item :: rest => ',' :: write item ++ writeItems rest

/-- Further fields of an object. -/
def writeFields : List (String × Json) → List Char
  | [] => []
  | (name, value) :: rest => ',' :: writeString name ++ ':' :: write value ++ writeFields rest

end

def render (value : Json) : String := String.ofList (write value)

end SourceAtlas.Json
