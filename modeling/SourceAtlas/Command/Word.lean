import SourceAtlas.Command.Flag
import SourceAtlas.Number.Numeral
import SourceAtlas.Text.Search

/-!
# Words of the command line

Each word is an argument, a flag of the level at which it is read, or an unknown flag. A long flag
may be cut short as long as no other one begins like it, and short flags may stand together.
-/

namespace SourceAtlas.Command

/-- What a word is at a level. -/
inductive Word
  | argument
  | unknown
  /-- A flag, perhaps with text attached to it. -/
  | known (flag : Flag) (attached : Option String)
  /-- The beginning of several flags. -/
  | ambiguous (spellings : List String)
  deriving DecidableEq, Repr

namespace Word

/-- A negative number: digits behind a dash, perhaps with one point before the last of them. -/
def isNegativeNumber (word : List Char) : Bool :=
  let body := if word.getLast? = some '\n' then word.dropLast else word
  match body with
  | '-' :: digits =>
      let isDigit (c : Char) : Bool := (Text.digitValue? c).isSome
      let fraction := (digits.dropWhile isDigit).drop 1
      match digits.dropWhile isDigit with
      | [] => !digits.isEmpty
      | '.' :: _ => !fraction.isEmpty && fraction.all isDigit
      | _ => false
  | _ => false

/-- The text up to the first equals sign, and the text behind it if there is one. -/
def cutAtEquals (word : List Char) : String × Option String :=
  (String.ofList (word.takeWhile (· != '=')),
    match word.dropWhile (· != '=') with
    | [] => none
    | _ :: rest => some (String.ofList rest))

/-- The flags of a level that a word which is no exact spelling may stand for, each with its
spelling and the text attached to it. -/
def candidates (level : Level) : List Char → List (String × Flag × Option String)
  | '-' :: '-' :: rest =>
      let (beginning, attached) := cutAtEquals ('-' :: '-' :: rest)
      (level.spellings.filter fun (spelling, _) => Text.hasStart spelling beginning).map
        fun (spelling, flag) => (spelling, flag, attached)
  | '-' :: letter :: rest =>
      (level.spellings.filter fun (spelling, _) => spelling = String.ofList ['-', letter]).map
        fun (spelling, flag) => (spelling, flag, some (String.ofList rest))
  | _ => []

/-- What a word with a dash in front is when it is no exact spelling of a flag. -/
def readInexact (level : Level) (word : List Char) : Word :=
  match candidates level word with
  | [] => if isNegativeNumber word || word.contains ' ' then .argument else .unknown
  | [(_, flag, attached)] => .known flag attached
  | several => .ambiguous (several.map (·.1))

def read (level : Level) (word : String) : Word :=
  match word.toList with
  | [] | ['-'] => .argument
  | '-' :: rest =>
      match level.flagOf? word with
      | some flag => .known flag none
      | none =>
          match cutAtEquals ('-' :: rest) with
          | (spelling, some attached) =>
              match level.flagOf? spelling with
              | some flag => .known flag (some attached)
              | none => readInexact level ('-' :: rest)
          | (_, none) => readInexact level ('-' :: rest)
  | _ => .argument

end Word

end SourceAtlas.Command
