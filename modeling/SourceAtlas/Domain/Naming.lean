import SourceAtlas.Domain.Basic
import SourceAtlas.Number.Binary64

/-!
# Naming groups

Modules called `<name>-manager` and hooks called `use<Name>` form a group. A domain that a group
covers to a large enough part takes the name of the group.
-/

namespace SourceAtlas.Domain

open Text

/-- A file name without one line break at its end. -/
def dropFinalBreak (name : List Char) : List Char :=
  if name.getLast? = some '\n' then name.dropLast else name

/-- A non-empty text without line breaks. -/
def isPlainName (name : List Char) : Bool := !name.isEmpty && !name.contains '\n'

/-- The name in front of one of the endings. -/
def nameBefore? (endings : List String) (text : List Char) : Option (List Char) :=
  (endings.findSome? fun ending => dropEnd? ending.toList text).filter isPlainName

def managerGroup? (fileName : List Char) : Option (List Char) :=
  nameBefore? ["-manager.ts", "-manager.js"] (dropFinalBreak fileName)

def hookGroup? (fileName : List Char) : Option (List Char) :=
  ((dropStart? "use".toList (dropFinalBreak fileName)).bind
    (nameBefore? [".ts", ".tsx"])).map uncapitalize

/-- The naming group of a file. A name of both shapes belongs to the group of the hook. -/
def namingGroup? (path : String) : Option String :=
  let fileName := Path.lastSegment path.toList
  ((hookGroup? fileName).orElse fun _ => managerGroup? fileName).map String.ofList

/-- The groups of a list of files in the order of their first member. -/
def namingGroups (files : List SourceFile) : List String :=
  distinct (files.filterMap fun file => namingGroup? file.path)

/-- The number of different paths in a domain. -/
def size (domain : Domain) : Nat := (distinct domain.paths).length

/-- The number of different paths in a domain that belong to a group. -/
def overlap (domain : Domain) (group : String) : Nat :=
  (distinct domain.paths).countP fun path => namingGroup? path == some group

/-- A part of `overlap` among `size` files reaches the threshold. -/
def reaches (threshold : Number.Binary64) (overlap size : Nat) : Bool :=
  ((Number.Binary64.ofNat size).mul threshold).leInt overlap

/-- A group covers a domain: it shares files with it, and enough of them. -/
def isCovered (threshold : Number.Binary64) (domain : Domain) (group : String) : Bool :=
  domain.overlap group != 0 && reaches threshold (domain.overlap group) domain.size

/-- Name a domain after the first group that covers it. -/
def withGroupName (threshold : Number.Binary64) (groups : List String) (domain : Domain) :
    Domain :=
  match groups.find? (domain.isCovered threshold) with
  | some group =>
      let name := titleCase group
      if name.isEmpty then domain else { domain with name := name }
  | none => domain

end SourceAtlas.Domain
