import SourceAtlas.Path.Slash
import SourceAtlas.Text.Case

/-!
# Languages

The language of a file is read off its extension. Some languages have a line comment, and only
files of these can carry an entrypoint tag.
-/

namespace SourceAtlas

/-- A language of the extension table, or another one given by its name. -/
inductive Language
  | typescript
  | javascript
  | python
  | go
  | rust
  | java
  | kotlin
  | csharp
  | css
  | html
  | json
  | yaml
  | markdown
  | named (name : String)
  deriving DecidableEq, Repr, Inhabited

namespace Language

def unknown : Language := .named "unknown"

/-- The languages of the extension table with their names. -/
def table : List (String × Language) :=
  [("typescript", typescript), ("javascript", javascript), ("python", python), ("go", go),
   ("rust", rust), ("java", java), ("kotlin", kotlin), ("csharp", csharp), ("css", css),
   ("html", html), ("json", json), ("yaml", yaml), ("markdown", markdown)]

def ofName (name : String) : Language := (table.lookup name).getD (named name)

def name : Language → String
  | typescript => "typescript"
  | javascript => "javascript"
  | python => "python"
  | go => "go"
  | rust => "rust"
  | java => "java"
  | kotlin => "kotlin"
  | csharp => "csharp"
  | css => "css"
  | html => "html"
  | json => "json"
  | yaml => "yaml"
  | markdown => "markdown"
  | named name => name

/-- The extensions in lower case. -/
def extensionTable : List (String × Language) :=
  [(".ts", typescript), (".tsx", typescript), (".mts", typescript), (".cts", typescript),
   (".js", javascript), (".jsx", javascript), (".mjs", javascript), (".cjs", javascript),
   (".py", python), (".pyw", python), (".go", go), (".rs", rust), (".java", java),
   (".kt", kotlin), (".kts", kotlin), (".cs", csharp), (".css", css), (".scss", css),
   (".less", css), (".html", html), (".htm", html), (".json", json), (".jsonc", json),
   (".yaml", yaml), (".yml", yaml), (".md", markdown), (".mdx", markdown)]

/-- The language of a path, unless its extension is not in the table. -/
def ofPath? (path : String) : Option Language :=
  extensionTable.lookup (Text.lower (String.ofList (Path.extension path.toList)))

/-- What starts a line comment, in the languages that have one. -/
def lineComment? : Language → Option String
  | typescript | javascript | go | rust | java | kotlin | csharp => some "//"
  | python | yaml => some "#"
  | _ => none

def isTaggable (language : Language) : Bool := language.lineComment?.isSome

end Language

end SourceAtlas
