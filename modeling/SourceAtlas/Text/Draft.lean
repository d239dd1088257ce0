import SourceAtlas.Text.Quoted
import SourceAtlas.Text.Utf8

/-!
# Texts to be written

A text in memory can hold a surrogate without its partner, as names of files that are no text do.
Such a text has no encoding.
-/

namespace SourceAtlas.Text

/-- One place of a text in memory. -/
inductive Mark
  | char (c : Char)
  /-- A surrogate without its partner. -/
  | surrogate (code : Nat)
  deriving DecidableEq, Repr

namespace Mark

def char? : Mark → Option Char
  | char c => some c
  | surrogate _ => none

def isSurrogate (mark : Mark) : Bool := mark.char?.isNone

end Mark

/-- A text to be written. -/
structure Draft where
  marks : List Mark
  deriving DecidableEq, Repr, Inhabited

/-- Why a text has no encoding: its first surrogates. -/
structure EncodeError where
  /-- The first surrogate. -/
  code : Nat
  position : Nat
  /-- How many surrogates stand there in a row. -/
  count : Nat
  deriving DecidableEq, Repr

def EncodeError.message (e : EncodeError) : String :=
  let place :=
    if e.count = 1 then
      "character \x27\\u" ++ String.ofList (hexDigits 4 e.code) ++ "\x27 in position "
        ++ toString e.position
    else
      "characters in position " ++ toString e.position ++ "-"
        ++ toString (e.position + e.count - 1)
  "\x27utf-8\x27 codec can\x27t encode " ++ place ++ ": surrogates not allowed"

namespace Draft

def ofList (text : List Char) : Draft := ⟨text.map .char⟩

def ofString (text : String) : Draft := ofList text.toList

instance : Coe (List Char) Draft := ⟨ofList⟩

instance : Coe String Draft := ⟨ofString⟩

def append (draft : Draft) (text : List Char) : Draft := ⟨draft.marks ++ text.map .char⟩

/-- Encode marks that start at a position of the whole. -/
def encodeFrom (position : Nat) : List Mark → Except EncodeError (List UInt8)
  | [] => .ok []
  | .char c :: rest => (encodeFrom (position + 1) rest).map (Utf8.encodeChar c ++ ·)
  | .surrogate code :: rest =>
      .error ⟨code, position, 1 + (rest.takeWhile Mark.isSurrogate).length⟩

/-- The encoding of a draft, if it has no surrogates. -/
def encode (draft : Draft) : Except EncodeError (List UInt8) := encodeFrom 0 draft.marks

/-- The draft as a string, if it has no surrogates. -/
def toString? (draft : Draft) : Option String :=
  (draft.marks.mapM Mark.char?).map String.ofList

end Draft

end SourceAtlas.Text
