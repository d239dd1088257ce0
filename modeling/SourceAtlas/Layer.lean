import SourceAtlas.Path.Slash

/-!
# Layers

The layer of a file is read off its directories: `src/<layer>/` at any depth, or a top-level
`<layer>/`.
-/

namespace SourceAtlas

/-- An architectural layer, or another one given by its name. -/
inductive Layer
  | main
  | renderer
  | shared
  | preload
  | other
  | named (name : String)
  deriving DecidableEq, Repr, Inhabited

namespace Layer

def ofName : String → Layer
  | "main" => main
  | "renderer" => renderer
  | "shared" => shared
  | "preload" => preload
  | "other" => other
  | name => named name

def name : Layer → String
  | main => "main"
  | renderer => "renderer"
  | shared => "shared"
  | preload => "preload"
  | other => "other"
  | named name => name

/-- The layers that have a directory, in the order in which they are looked for. -/
def withDirectory : List Layer := [main, renderer, shared, preload]

/-- Some directory called `src` directly holds one called `dir`. -/
def hasSourceDirectory (dir : String) : List String → Bool
  | parent :: child :: rest =>
      (parent == "src" && child == dir) || hasSourceDirectory dir (child :: rest)
  | _ => false

def claims (layer : Layer) (dirs : List String) : Bool :=
  dirs.head? == some layer.name || hasSourceDirectory layer.name dirs

/-- The layer of a path; a backslash separates segments too. -/
def ofPath (path : String) : Layer :=
  let text := path.toList.map fun c => if c = '\\' then '/' else c
  let dirs := ((Text.split '/' text).map String.ofList).dropLast
  (withDirectory.find? (·.claims dirs)).getD other

theorem ofPath_mem (path : String) : ofPath path ∈ other :: withDirectory := by
  unfold ofPath
  dsimp only
  cases hfind : withDirectory.find? _ with
  | none => exact List.mem_cons_self
  | some layer => exact List.mem_cons_of_mem _ (List.mem_of_find?_eq_some hfind)

end Layer

end SourceAtlas
