import SourceAtlas.Path.Location

/-!
# File trees

A file tree maps routes, the names from the root down, to files, directories and symbolic links.
The root itself is always there.
-/

namespace SourceAtlas

/-- The names from the root down to an entry. -/
abbrev Route := List String

instance : Coe Route Location := ⟨Location.ofRoute⟩

/-- When a file was last written. -/
inductive Modified
  /-- During the run. -/
  | recently
  /-- Microseconds since the start of 1970. -/
  | at (micros : Int)
  deriving DecidableEq, Repr, Inhabited

/-- What a route leads to. -/
inductive Entry
  | file (bytes : List UInt8) (modified : Modified)
  | directory
  /-- A symbolic link with the path that it holds. -/
  | link (target : String)
  deriving DecidableEq, Repr, Inhabited

structure Tree where
  entries : List (Route × Entry) := []
  deriving DecidableEq, Repr, Inhabited

inductive Edit
  /-- The entry is put at a route where there is none, or in place of the one that is there. -/
  | put (route : Route) (entry : Entry)
  | remove (route : Route)
  deriving DecidableEq, Repr

def Edit.route : Edit → Route
  | put route _ => route
  | remove route => route

namespace Tree

def find? (tree : Tree) (route : Route) : Option Entry :=
  match route with
  | [] => some .directory
  | route => tree.entries.lookup route

def setEntry (route : Route) (entry : Entry) : List (Route × Entry) → List (Route × Entry)
  | [] => [(route, entry)]
  | (r, e) :: rest =>
      if r = route then (route, entry) :: rest else (r, e) :: setEntry route entry rest

def set (tree : Tree) (route : Route) (entry : Entry) : Tree :=
  ⟨setEntry route entry tree.entries⟩

def erase (tree : Tree) (route : Route) : Tree :=
  ⟨tree.entries.filter fun e => e.1 != route⟩

def apply (tree : Tree) : Edit → Tree
  | .put route entry => tree.set route entry
  | .remove route => tree.erase route

def applyAll (tree : Tree) (edits : List Edit) : Tree := edits.foldl apply tree

/-- What is left of a route below another one. -/
def below? (base : Route) (route : Route) : Option Route :=
  match base, route with
  | [], route => some route
  | _ :: _, [] => none
  | b :: base, r :: route => if b = r then below? base route else none

/-- The entries below a route, with the rest of their routes. -/
def entriesBelow (tree : Tree) (base : Route) : List (Route × Entry) :=
  tree.entries.filterMap fun (route, entry) =>
    match below? base route with
    | some (name :: rest) => some (name :: rest, entry)
    | _ => none

/-- Remove the entry at a route and everything below it. -/
def prune (tree : Tree) (base : Route) : Tree :=
  ⟨tree.entries.filter fun e => (below? base e.1).isNone⟩

end Tree

end SourceAtlas
