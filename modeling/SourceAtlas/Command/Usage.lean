import SourceAtlas.Command.Flag

/-!
# Usage and help

What the program says about its command line, level by level.
-/

namespace SourceAtlas.Command.Level

/-- Lines, each ended by a line break. -/
def unlines (lines : List String) : String := String.join (lines.map (· ++ "\n"))

def usageLines : Level → List String
  | program =>
      ["usage: repoatlas [-h] [-v] [--log-file PATH] \x7bgenerate,status,serve\x7d ..."]
  | generate =>
      ["usage: repoatlas generate [-h] [-v] [--log-file PATH]",
       "                          [--sensitivity \x7blow,medium,high\x7d]",
       "                          [--max-tags MAX_TAGS] [--exclude NAME] [--write]",
       "                          [--no-tags]",
       "                          [path]"]
  | status => ["usage: repoatlas status [-h] [-v] [--log-file PATH] [path]"]
  | serve =>
      ["usage: repoatlas serve [-h] [-v] [--log-file PATH] [--host HOST] [--port PORT]"]

/-- What the help of a level says below the usage. -/
def helpLines : Level → List String
  | program =>
      ["Generate navigation documents and inline entrypoint tags for a repository.",
       "",
       "positional arguments:",
       "  \x7bgenerate,status,serve\x7d",
       "    generate            Scan the project and render CLAUDE.md and docs/repo-",
       "                        index.md.",
       "    status              Report whether atlas documents exist for the project.",
       "    serve               Run the HTTP service exposing generate, write, and",
       "                        status.",
       "",
       "options:",
       "  -h, --help            show this help message and exit",
       "  -v, --verbose         Increase log verbosity for troubleshooting.",
       "  --log-file PATH       Also write log records to PATH."]
  | generate =>
      ["positional arguments:",
       "  path                  Path to the project root (defaults to current",
       "                        directory).",
       "",
       "options:",
       "  -h, --help            show this help message and exit",
       "  -v, --verbose         Increase log verbosity for troubleshooting.",
       "  --log-file PATH       Also write log records to PATH.",
       "  --sensitivity \x7blow,medium,high\x7d",
       "                        Domain inference sensitivity (overrides .atlas.yml).",
       "  --max-tags MAX_TAGS   Maximum number of inline tags to propose (overrides",
       "                        .atlas.yml).",
       "  --exclude NAME        Additional directory or file name to exclude; may be",
       "                        repeated.",
       "  --write               Write the documents and auto-selected inline tags to",
       "                        disk.",
       "  --no-tags             With --write, skip inline tag updates."]
  | status =>
      ["positional arguments:",
       "  path             Path to the project root (defaults to current directory).",
       "",
       "options:",
       "  -h, --help       show this help message and exit",
       "  -v, --verbose    Increase log verbosity for troubleshooting.",
       "  --log-file PATH  Also write log records to PATH."]
  | serve =>
      ["options:",
       "  -h, --help       show this help message and exit",
       "  -v, --verbose    Increase log verbosity for troubleshooting.",
       "  --log-file PATH  Also write log records to PATH.",
       "  --host HOST      Interface to bind.",
       "  --port PORT      Port to listen on."]

def usage (level : Level) : String := unlines level.usageLines

def help (level : Level) : String := level.usage ++ "\n" ++ unlines level.helpLines

end SourceAtlas.Command.Level
