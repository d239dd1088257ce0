import SourceAtlas.Import.Rules
import SourceAtlas.Text.Order

/-!
# Import extraction

A rule is tried at every place of a text from left to right; after a match the search goes on
behind it. The targets of all rules of the language form one set.
-/

namespace SourceAtlas

namespace ImportRule

/-- The part of a text that was consumed when `rest` remains of it. -/
def consumed (text rest : List Char) : List Char := text.take (text.length - rest.length)

/-- All ways to match at the start of a text, the preferred one first: the target and the rest. -/
def matchesAt (rule : ImportRule) (text : List Char) : List (List Char × List Char) :=
  (rule.lead.rests text).flatMap fun atTarget =>
    (rule.target.rests atTarget).flatMap fun behind =>
      (rule.tail.rests behind).map fun rest => (consumed atTarget behind, rest)

/-- The targets in a text; `lineStart` tells whether the text begins a line, and `fuel` is at least
its length. -/
def scanFuel (rule : ImportRule) : Nat → Bool → List Char → List (List Char)
  | 0, _, _ => []
  | _ + 1, _, [] => []
  | fuel + 1, lineStart, c :: rest =>
      if rule.atLineStart && !lineStart then scanFuel rule fuel (c == '\n') rest
      else match (rule.matchesAt (c :: rest)).head? with
        | none => scanFuel rule fuel (c == '\n') rest
        | some (target, after) =>
            target :: scanFuel rule fuel ((consumed (c :: rest) after).getLast? == some '\n') after

/-- The targets in a text, in order. -/
def scan (rule : ImportRule) (text : List Char) : List (List Char) :=
  rule.scanFuel text.length true text

end ImportRule

/-- The targets of several rules, sorted and without repetitions. -/
def extractTargets (rules : List ImportRule) (text : List Char) : List String :=
  Text.sortDistinct ((rules.flatMap (·.scan text)).map String.ofList)

namespace Language

def importsOf (language : Language) (text : List Char) : List String :=
  extractTargets language.importRules text

def exportsOf (language : Language) (text : List Char) : List String :=
  extractTargets language.exportRules text

def hasImports (language : Language) : Bool := !language.importRules.isEmpty

end Language

end SourceAtlas
