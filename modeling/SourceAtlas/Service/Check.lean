import SourceAtlas.Service.Operation
import SourceAtlas.Text.CharRange
import SourceAtlas.Text.Split

/-!
# Checking request bodies

A value of a request is checked against the shape that is expected at its place, and becomes a value
of this shape. Every fault is reported with its place, in the order of the fields. Numbers and truth
values may be written as text; fields that no shape has are left out.
-/

namespace SourceAtlas.Service

/-- What is wrong with a value. -/
inductive FaultKind
  | malformedJson
  | missing
  | notObject
  | notText
  | brokenText
  | notList
  | notTruth
  | truthText
  | notInteger
  | integerText
  | integerSize
  | fraction
  | notFinite
  deriving DecidableEq, Repr

def FaultKind.name : FaultKind → String
  | malformedJson => "json_invalid"
  | missing => "missing"
  | notObject => "model_attributes_type"
  | notText => "string_type"
  | brokenText => "string_unicode"
  | notList => "list_type"
  | notTruth => "bool_type"
  | truthText => "bool_parsing"
  | notInteger => "int_type"
  | integerText => "int_parsing"
  | integerSize => "int_parsing_size"
  | fraction => "int_from_float"
  | notFinite => "finite_number"

/-- One step to a place in a body. -/
inductive PlaceStep
  | name (name : String)
  | index (index : Nat)
  deriving DecidableEq, Repr

/-- A fault at a place, which is given from the outside in. -/
structure Fault where
  kind : FaultKind
  place : List PlaceStep
  deriving DecidableEq, Repr

/-- A checked value, or its faults. -/
abbrev Checked (α : Type) : Type := Except (List Fault) α

namespace Checked

/-- A fault at the place of the value itself. -/
def fault {α : Type} (kind : FaultKind) : Checked α := .error [⟨kind, []⟩]

/-- Faults as seen from one step further out. -/
def within {α : Type} (step : PlaceStep) (checked : Checked α) : Checked α :=
  checked.mapError fun faults => faults.map fun f => { f with place := step :: f.place }

/-- Check two things; the faults of both are reported. -/
def both {α β : Type} (first : Checked α) (second : Checked β) : Checked (α × β) :=
  match first, second with
  | .ok a, .ok b => .ok (a, b)
  | .ok _, .error faults => .error faults
  | .error faults, .ok _ => .error faults
  | .error faults, .error more => .error (faults ++ more)

def itemsFrom {α : Type} (check : Json → Checked α) : Nat → List Json → Checked (List α)
  | _, [] => .ok []
  | index, item :: rest =>
      (both (within (.index index) (check item)) (itemsFrom check (index + 1) rest)).map
        fun (first, others) => first :: others

def text : Json → Checked String
  | .string text => .ok text
  | .brokenString _ => fault .brokenText
  | _ => fault .notText

/-- White space around a number; the control characters that separate records are none. -/
def isMargin (c : Char) : Bool := Text.isBlank c && !(28 ≤ c.toNat && c.toNat ≤ 31)

def trim (text : List Char) : List Char :=
  ((text.dropWhile isMargin).reverse.dropWhile isMargin).reverse

/-- The text in front of a point that only zeros follow. -/
def withoutZeroFraction (text : List Char) : List Char :=
  match text.dropWhile (· != '.') with
  | _ :: zeros => if zeros.all (· == '0') then text.takeWhile (· != '.') else text
  | [] => text

/-- The digits of an integer, which may stand in groups divided by single underscores. -/
def digits? (text : List Char) : Option (List Char) :=
  let groups := Text.split '_' text
  if groups.all fun group => !group.isEmpty && group.all Char.isDigit then some groups.flatten
  else none

/-- An integer may be written with this many digits. -/
def maxDigits : Nat := 4300

def valueOf (digits : List Char) : Nat :=
  digits.foldl (fun n c => n * 10 + (c.toNat - 48)) 0

/-- An integer written as text, without its sign. -/
def magnitude (text : List Char) : Checked Nat :=
  match digits? (withoutZeroFraction text) with
  | none => fault .integerText
  | some digits =>
      if maxDigits < (digits.dropWhile (· == '0')).length then fault .integerSize
      else .ok (valueOf digits)

def integerOfText (text : String) : Checked Int :=
  match trim text.toList with
  | '-' :: rest => (magnitude rest).map fun n => -(n : Int)
  | '+' :: rest => (magnitude rest).map fun n => (n : Int)
  | rest => (magnitude rest).map fun n => (n : Int)

def leastWord : Int := -9223372036854775808

def isWord (n : Int) : Bool := leastWord ≤ n && n < -leastWord

/-- A floating-point number that is an integer. -/
def integerOfFloat (x : Number.Binary64) : Checked Int :=
  match x with
  | .finite .. =>
      match x.toInt? with
      | none => fault .fraction
      | some n => if isWord n && n != leastWord then .ok n else fault .integerSize
  | _ => fault .notFinite

def integer : Json → Checked Int
  | .int n => .ok n
  | .bool b => .ok (if b then 1 else 0)
  | .float x => integerOfFloat x
  | .string text => integerOfText text
  | .brokenString _ => fault .brokenText
  | _ => fault .notInteger

def truthOfInteger (n : Int) : Checked Bool :=
  if n = 0 then .ok false
  else if n = 1 then .ok true
  else if isWord n then fault .truthText
  else fault .notTruth

def trueWords : List String := ["1", "on", "t", "true", "y", "yes"]

def falseWords : List String := ["0", "off", "f", "false", "n", "no"]

def truthOfText (text : String) : Checked Bool :=
  let word := String.ofList (text.toList.map Char.toLower)
  if word ∈ trueWords then .ok true
  else if word ∈ falseWords then .ok false
  else fault .truthText

def truth : Json → Checked Bool
  | .bool b => .ok b
  | .int n => truthOfInteger n
  | .float x =>
      match integerOfFloat x with
      | .ok n => truthOfInteger n
      | .error _ => fault .notTruth
  | .string text => truthOfText text
  | .brokenString _ => fault .brokenText
  | _ => fault .notTruth

end Checked

open Checked

mutual

/-- The value of a shape that a value stands for. -/
def Shape.check : Shape → Json → Checked Json
  | .text, value => (Checked.text value).map .string
  | .integer, value => (Checked.integer value).map .int
  | .truth, value => (Checked.truth value).map .bool
  | .nullable shape, value =>
      match value with
      | .null => .ok .null
      | value => shape.check value
  | .list shape, value =>
      match value with
      | .array items => (itemsFrom shape.check 0 items).map .array
      | _ => fault .notList
  | .record fields, value =>
      match value with
      | .object given => (Shape.checkFields fields given).map .object
      | _ => fault .notObject

/-- The fields of a record, in order. -/
def Shape.checkFields : List (String × Shape × Option Json) → List (String × Json) →
    Checked (List (String × Json))
  | [], _ => .ok []
  | (name, shape, default) :: rest, given =>
      let value := match given.lookup name, default with
        | some value, _ => shape.check value
        | none, some value => .ok value
        | none, none => fault .missing
      (both (within (.name name) value) (Shape.checkFields rest given)).map
        fun (value, others) => (name, value) :: others

end

end SourceAtlas.Service
