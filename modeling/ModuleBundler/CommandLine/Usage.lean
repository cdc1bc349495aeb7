/-! What the program says about how to use it. -/
namespace ModuleBundler.Usage

/-- Lines, each of which is ended. -/
def lines (ls : List String) : String := String.join (ls.map (· ++ "\n"))

/-- The whole program. -/
def program : String := lines [
  "Bundles CommonJS and ES modules reachable from one or more entry points",
  "into self-executing scripts, one per entry.",
  "",
  "Usage: tinypack <COMMAND>",
  "",
  "Commands:",
  "  bundle  Bundle entry points into scripts",
  "  lex     Lex a JavaScript file and show tokens (debug)",
  "  parse   Parse a JavaScript file and show the AST (debug)",
  "  help    Print this message or the help of the given subcommand(s)",
  "",
  "Options:",
  "  -h, --help",
  "          Print help (see a summary with '-h')",
  "",
  "  -V, --version",
  "          Print version"]

/-- The name and number of the program. -/
def version : String := lines ["tinypack 0.1.0"]

/-- Bundling. -/
def bundle : String := lines [
  "Bundle entry points into scripts",
  "",
  "Usage: tinypack bundle [OPTIONS] [ENTRIES]...",
  "",
  "Arguments:",
  "  [ENTRIES]...  Entry files; a single entry is named \"main\", several are named after "
    ++ "their file stems",
  "",
  "Options:",
  "      --entry <NAME=PATH>    Named entry point as name=path (repeatable)",
  "  -o, --output <OUTPUT>      Output directory",
  "      --filename <FILENAME>  Output filename template; [name] is replaced by the chunk name",
  "      --ext <EXT>            Extensions to try when resolving (repeatable)",
  "      --context <CONTEXT>    Project root that ids and entry paths are relative to",
  "  -c, --config <CONFIG>      JSON configuration file",
  "  -w, --watch                Rebuild whenever a bundled file changes",
  "      --json                 Print the stats as JSON instead of a summary",
  "  -v, --verbose              Enable verbose output",
  "  -h, --help                 Print help"]

/-- Showing tokens. -/
def lex : String := lines [
  "Lex a JavaScript file and show tokens (debug)",
  "",
  "Usage: tinypack lex [OPTIONS] <INPUT>",
  "",
  "Arguments:",
  "  <INPUT>  Input JavaScript file",
  "",
  "Options:",
  "  -p, --positions  Show token positions",
  "  -h, --help       Print help"]

/-- Reading a module. -/
def parse : String := lines [
  "Parse a JavaScript file and show the AST (debug)",
  "",
  "Usage: tinypack parse <INPUT>",
  "",
  "Arguments:",
  "  <INPUT>  Input JavaScript file",
  "",
  "Options:",
  "  -h, --help  Print help"]

end ModuleBundler.Usage
