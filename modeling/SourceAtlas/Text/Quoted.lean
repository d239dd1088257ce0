import SourceAtlas.Text.Printable

/-!
# Quoted text in messages

Messages show a text between single quotes, or between double quotes when it holds a single quote
and no double one; what cannot be printed is escaped.
-/

namespace SourceAtlas.Text

/-- The lower-case hexadecimal digits of a number, filled up to a width. -/
def hexDigits (width n : Nat) : List Char :=
  let digits := Nat.toDigits 16 n
  List.replicate (width - digits.length) '0' ++ digits

def quoteChar (quote c : Char) : List Char :=
  if c = quote ∨ c = '\\' then ['\\', c]
  else if c = '\n' then ['\\', 'n']
  else if c = '\r' then ['\\', 'r']
  else if c = '\t' then ['\\', 't']
  else if isPrintable c then [c]
  else if c.toNat < 0x100 then '\\' :: 'x' :: hexDigits 2 c.toNat
  else if c.toNat < 0x10000 then '\\' :: 'u' :: hexDigits 4 c.toNat
  else '\\' :: 'U' :: hexDigits 8 c.toNat

def quoted (text : String) : String :=
  let chars := text.toList
  let quote := if chars.contains '\x27' && !chars.contains '\x22' then '\x22' else '\x27'
  String.ofList (quote :: chars.flatMap (quoteChar quote) ++ [quote])

end SourceAtlas.Text
