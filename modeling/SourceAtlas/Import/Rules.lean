import SourceAtlas.Import.Pattern
import SourceAtlas.Language
import SourceAtlas.Text.CharRange
import SourceAtlas.Text.Word

/-!
# Import and export rules

For each language the shapes of text that name an import target, and the shape of an export.
-/

namespace SourceAtlas

/-- A shape with one part of interest: what leads up to it, the part itself, and what follows. -/
structure ImportRule where
  /-- The shape stands at the start of a line only. -/
  atLineStart : Bool := false
  lead : Pattern
  target : Pattern
  tail : Pattern := .literal []

namespace ImportRule

open Pattern Text

/-- White space, at least one character. -/
def blanks : Pattern := run1 isBlank

/-- White space or nothing. -/
def anyBlanks : Pattern := run isBlank

def isQuote (c : Char) : Bool := c == '\x27' || c == '\x22'

def quote : Pattern := one isQuote

/-- What stands between quotes. -/
def unquoted : Pattern := run1 fun c => !isQuote c

def word : Pattern := run1 isWord

/-- A word character or a dot. -/
def isDotted (c : Char) : Bool := isWord c || c == '.'

/-- A dotted name that starts with an ASCII letter. -/
def dottedName : Pattern := one Char.isAlpha ++ run isDotted

/-- `import`, bindings, `from`, module. The bindings are braces, a namespace, or one name. -/
def bindingImport : ImportRule where
  lead := text "import" ++ blanks ++ optional (text "type" ++ blanks) ++
    either (text "\x7b" ++ run (· != '\x7d') ++ text "\x7d")
      (either (text "*" ++ blanks ++ text "as" ++ blanks ++ word) word) ++
    blanks ++ text "from" ++ blanks ++ quote
  target := unquoted
  tail := quote

def bareImport : ImportRule where
  lead := text "import" ++ blanks ++ quote
  target := unquoted
  tail := quote

def requireCall : ImportRule where
  lead := text "require" ++ anyBlanks ++ text "(" ++ anyBlanks ++ quote
  target := unquoted
  tail := quote ++ anyBlanks ++ text ")"

/-- `import` and a dotted module, at the start of a line. -/
def moduleImport : ImportRule where
  atLineStart := true
  lead := text "import" ++ blanks
  target := run1 isDotted

/-- `from`, a dotted module, `import`, at the start of a line. -/
def memberImport : ImportRule where
  atLineStart := true
  lead := text "from" ++ blanks
  target := run1 isDotted
  tail := blanks ++ text "import"

def doubleQuote : Pattern := text "\x22"

def notDoubleQuoted : Pattern := run1 (· != '\x22')

def packageImport : ImportRule where
  lead := text "import" ++ blanks ++ doubleQuote
  target := notDoubleQuoted
  tail := doubleQuote

/-- `import`, a local name, and a package in double quotes. -/
def renamedPackageImport : ImportRule where
  lead := text "import" ++ blanks ++ word ++ blanks ++ doubleQuote
  target := notDoubleQuoted
  tail := doubleQuote

def useDeclaration : ImportRule where
  lead := text "use" ++ blanks
  target := run1 fun c => isWord c || c == ':'

def externCrate : ImportRule where
  lead := text "extern" ++ blanks ++ text "crate" ++ blanks
  target := word

/-- A keyword, optionally `static`, and a dotted name. -/
def staticImport (keyword : String) : ImportRule where
  lead := text keyword ++ blanks ++ optional (text "static" ++ blanks)
  target := dottedName

def nameImport : ImportRule where
  lead := text "import" ++ blanks
  target := dottedName

/-- `@import` and a sheet in quotes, optionally inside `url(`. -/
def sheetImport : ImportRule where
  lead := text "@import" ++ blanks ++ optional (text "url(") ++ anyBlanks ++ quote
  target := unquoted
  tail := quote

def exportKeywords : Pattern :=
  ["class", "const", "let", "var", "interface", "type", "enum"].foldl
    (fun p keyword => either p (text keyword)) (text "function")

/-- `export`, optionally `default`, a keyword and a name. -/
def exportDeclaration : ImportRule where
  lead := text "export" ++ blanks ++ optional (text "default" ++ blanks) ++ exportKeywords ++ blanks
  target := word

end ImportRule

namespace Language

open ImportRule

def importRules : Language → List ImportRule
  | typescript | javascript => [bindingImport, bareImport, requireCall]
  | python => [moduleImport, memberImport]
  | go => [packageImport, renamedPackageImport]
  | rust => [useDeclaration, externCrate]
  | java => [staticImport "import"]
  | kotlin => [nameImport]
  | csharp => [staticImport "using"]
  | css => [sheetImport]
  | _ => []

def exportRules : Language → List ImportRule
  | typescript | javascript => [exportDeclaration]
  | _ => []

end Language

end SourceAtlas
