import SourceAtlas.Text.CaseTable
import SourceAtlas.Text.Split

/-!
# Upper and lower case

Full case mappings: one character may become several, and a capital sigma at the end of a word
becomes a final sigma. In titles every word of a name starts with an upper case letter.
-/

namespace SourceAtlas.Text

/-- The image of a character under the first run that covers it. -/
def shiftCase (runs : List CaseRun) (c : Char) : Char :=
  match runs.find? (·.covers c.toNat) with
  | some run => Char.ofNat (c.toNat + run.offset).toNat
  | none => c

def upperChar (c : Char) : List Char :=
  if c.toNat < 128 then [c.toUpper]
  else match upperExpansions.lookup c.toNat with
    | some codes => codes.map Char.ofNat
    | none => [shiftCase upperRuns c]

/-- Lower case of one character standing alone. -/
def lowerChar (c : Char) : List Char :=
  if c.toNat < 128 then [c.toLower]
  else if c.toNat = 0x130 then ['i', Char.ofNat 0x307]
  else [shiftCase lowerRuns c]

/-- The nearest neighbour that counts is a cased letter. -/
def nextIsCased (text : List Char) : Bool :=
  match text.dropWhile caseIgnorableRanges.contains with
  | [] => false
  | c :: _ => casedRanges.contains c

/-- Lower case, where `before` holds the characters already passed, nearest first. -/
def lowerFrom (before : List Char) : List Char → List Char
  | [] => []
  | c :: rest =>
      let mapped :=
        if c.toNat = 0x3a3 then
          [if nextIsCased before && !nextIsCased rest then Char.ofNat 0x3c2 else Char.ofNat 0x3c3]
        else lowerChar c
      mapped ++ lowerFrom (c :: before) rest

def lower (text : String) : String := String.ofList (lowerFrom [] text.toList)

/-- A text with its first character in upper case. -/
def capitalize : List Char → List Char
  | [] => []
  | c :: rest => upperChar c ++ rest

def uncapitalize : List Char → List Char
  | [] => []
  | c :: rest => lowerChar c ++ rest

/-- The words of a name in kebab-case or snake_case. -/
def nameWords (name : List Char) : List (List Char) :=
  split '-' (name.map fun c => if c = '_' then '-' else c)

def titleCase (name : String) : String :=
  String.ofList (join ' ' ((nameWords name.toList).map capitalize))

end SourceAtlas.Text
