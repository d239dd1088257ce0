import SourceAtlas.Document.Summary
import SourceAtlas.Text.Digit

/-!
# The two documents

The overview of a project and its file index, as lines of Markdown.
-/

namespace SourceAtlas

inductive Page
  | overview
  | index
  deriving DecidableEq, Repr

namespace Page

/-- Where the file index lies in the project. -/
def indexPath : String := "docs/repo-index.md"

/-- Lines, each ended by a line break. -/
def unlines (lines : List String) : String := String.join (lines.map (· ++ "\n"))

def code (text : String) : String := "`" ++ text ++ "`"

def row (cells : List String) : String := "| " ++ " | ".intercalate cells ++ " |"

/-- The cell of a list of paths: their file names. -/
def namesCell (paths : List String) : String :=
  let names := ", ".intercalate (paths.map Path.baseName)
  if names.isEmpty then "-" else names

/-- A text unless there is none or it is empty. -/
def nonEmpty? (text : Option String) : Option String := text.filter fun t => !t.isEmpty

def figures (summary : Summary) (filesLabel : String) : String :=
  toString summary.totalFiles ++ " " ++ filesLabel ++ " | ~" ++ Text.thousands summary.totalLines
    ++ " LOC | " ++ toString summary.domains.length ++ " domains"

def domainRow (domain : Domain) : String :=
  row [domain.name, namesCell domain.mainFiles, namesCell domain.rendererFiles,
    namesCell domain.sharedFiles, (nonEmpty? domain.channels).getD "-"]

/-- How to add a message, if the project has a contract. -/
def messageLines (files : List SourceFile) : List String :=
  match Summary.contractPath? files with
  | none => []
  | some contract =>
      ["", "## Adding a New IPC Method", "1. Add entry to " ++ code contract,
        match Summary.handlersPath? files with
        | some handlers => "2. Add handler in " ++ code handlers
        | none => "2. Register a handler in the main process",
        "(Preload bridge and types auto-derive.)"]

/-- How to add a domain, if the project is layered. -/
def domainLines (files : List SourceFile) : List String :=
  if Summary.isLayered files then
    ["", "## Adding a New Domain", "1. Create `src/main/<domain>-manager.ts`",
      "2. Create `src/renderer/hooks/use<Domain>.ts`",
      "3. Create component(s) in `src/renderer/components/`",
      "4. Add IPC methods to contract with `<domain>:*` prefix",
      "5. Update " ++ code indexPath]
  else []

def overviewLines (project : String) (summary : Summary) : List String :=
  ["# " ++ project, "", "## Stats", figures summary "source files", "", "## Tech Stack",
    Summary.techStack summary.languages, "", "## Domain Map",
    row ["Domain", "Main", "Renderer", "Shared", "IPC Prefix"],
    "|--------|------|----------|--------|------------|"]
  ++ summary.domains.map domainRow
  ++ messageLines summary.files
  ++ domainLines summary.files
  ++ ["", "## Docs", "- [Repo Index](" ++ indexPath ++ ") - detailed domain-to-file mapping"]

def entrypointLine (file : SourceFile) : String :=
  "- " ++ code file.path ++ " (" ++ file.layer.name ++ ", " ++ toString file.lineCount ++ " lines)"

/-- The section of the entrypoints, if there are any. -/
def entrypointLines (files : List SourceFile) : List String :=
  match Summary.entrypoints files with
  | [] => []
  | found => ["## Entrypoints", ""] ++ found.map entrypointLine ++ [""]

def fileRow (file : SourceFile) : String :=
  row [code file.path, file.layer.name, toString file.lineCount]

def sortedFiles (files : List SourceFile) : List SourceFile :=
  files.mergeSort fun a b => Text.codePointLe a.path b.path

def sectionLines (domain : Domain) : List String :=
  ["## " ++ domain.name, ""]
  ++ (match nonEmpty? domain.channels with
      | some channels => ["IPC: " ++ code channels, ""]
      | none => [])
  ++ [row ["File", "Layer", "Lines"], "|------|-------|-------|"]
  ++ (sortedFiles domain.files).map fileRow
  ++ [""]

def indexLines (project : String) (summary : Summary) : List String :=
  ["# " ++ project ++ " - Repo Index", "", figures summary "files", ""]
  ++ entrypointLines summary.files
  ++ summary.domains.flatMap sectionLines

def text (page : Page) (project : String) (summary : Summary) : String :=
  match page with
  | .overview => unlines (overviewLines project summary)
  | .index => unlines (indexLines project summary)

def templateName : Page → String
  | overview => "claude_md.md.j2"
  | index => "repo_index.md.j2"

/-- Where layouts are taken from. -/
inductive Layouts
  | builtIn
  /-- A folder without layouts. -/
  | folder (path : String)
  deriving DecidableEq, Repr

/-- A document whose layout is not in the folder. -/
structure MissingLayout where
  page : Page
  folder : String
  deriving DecidableEq, Repr

def MissingLayout.message (missing : MissingLayout) : String :=
  "Template not found: " ++ missing.page.templateName ++ " in " ++ missing.folder

/-- The text of a document in a layout. -/
def render (layouts : Layouts) (page : Page) (project : String) (summary : Summary) :
    Except MissingLayout String :=
  match layouts with
  | .builtIn => .ok (page.text project summary)
  | .folder path => .error ⟨page, path⟩

end Page

end SourceAtlas
