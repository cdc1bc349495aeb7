import ModuleBundler.Bundle.Report
import ModuleBundler.CommandLine.Arguments
import ModuleBundler.Compiler.Basic
import ModuleBundler.Config
import ModuleBundler.Text.Debug

/-! What the program does when it is asked: everything that it prints, and the files afterwards. -/
namespace ModuleBundler

/-- What comes of a call of the program. -/
structure Response where
  code : Nat
  output : String
  /-- Complaints, one behind the other. -/
  complaints : List String
  tree : FileTree

namespace Response

/-- A call that failed. -/
def failed (t : FileTree) (output : String) (complaints : List String) : Response :=
  ⟨1, output, complaints, t⟩

/-- A call that came to its end. -/
def succeeded (t : FileTree) (output : String) : Response := ⟨0, output, [], t⟩

end Response

/-- A path, taken from where the program was called if it is relative. -/
def FileTree.fromHome (t : FileTree) (p : Path) : Path := (Path.ofLocation t.home).push p

namespace CommandLine

/-- The options in a configuration file, whose paths are seen from its directory. -/
def configured (reader : JsonReader) (t : FileTree) (file : Path) : Except ConfigError Options := do
  let directory := (file.parent?.filter fun p => !p.text.isEmpty).getD ⟨"."⟩
  let base ← (t.canonical directory).mapError (.context directory)
  (← Config.load reader t file).options reader base

/-- The entry points that the arguments give: a single one needs no name, and several are named
after their files. -/
def entry? (a : BundleArguments) : Except ConfigError (Option Entry) := do
  match a.named, a.entries with
  | [], [] => return none
  | [], [path] => return some (.single path)
  | _, _ =>
    let unnamed := a.entries.map fun p => (p.stem?.getD p.text, p)
    return some (.named (unnamed ++ (← a.named.mapM Entry.parsePoint)))

/-- The options for a call: the arguments go before the configuration file. -/
def options (reader : JsonReader) (t : FileTree) (a : BundleArguments) :
    Except ConfigError Options := do
  let base ← match a.config with
    | some file => configured reader t file
    | none =>
      let context := Path.ofLocation t.home
      pure { packageMain := reader.packageMain, context, entry := .named [] }
  let entry ← entry? a
  return { base with
    entry := entry.getD base.entry
    context := (a.context.map t.fromHome).getD base.context
    outputPath := (a.output.map t.fromHome).or base.outputPath
    filename := a.filename.getD base.filename
    extensions := if a.extensions.isEmpty then base.extensions else a.extensions }

/-- A line for each chunk that was written. -/
def summary (directory : Path) (s : Stats) : String :=
  String.join (s.chunks.map fun c =>
    c.name ++ " -> " ++ (directory.push ⟨c.filename⟩).text ++ " (" ++ toString c.modules.length
      ++ " modules)\n")

/-- What is said about errors of a text. -/
def parseComplaints (p : Path) (errors : List ParseError) : List String :=
  errors.map fun e => p.text ++ ": " ++ e.describe

/-- What is said about the failure of a pass. -/
def complaints : BundleError → List String
  | .parse p _ errors => parseComplaints p errors
  | e => ["Error: " ++ e.message]

/-- Bundles, and says what was written. -/
def bundle (reader : JsonReader) (t : FileTree) (a : BundleArguments) : Response :=
  let made := do
    let o ← (options reader t a).mapError BundleError.config
    Compiler.create o [.runLogger, .doneLogger] none t
  match made with
  | .error e => .failed t "" ["Error: " ++ e.message]
  | .ok (c, _) =>
    let o := c.run .silent t
    let reports := o.events.filterMap fun event =>
      match event with
      | .report result => some result
      | _ => none
    let say (s : Stats) :=
      if a.json then s.toJson.pretty ++ "\n" else summary c.options.outputDirectory s
    match reports with
    | [.ok stats] => .succeeded o.tree (say stats)
    | _ =>
      .failed o.tree "" (reports.flatMap fun r =>
        match r with
        | .ok _ => []
        | .error e => complaints e)

/-- A number with blanks before it, four characters wide if it is not longer. -/
def column (n : Nat) : String :=
  let digits := toString n
  String.ofList (List.replicate (4 - digits.length) ' ') ++ digits

/-- The line for a token. -/
def tokenLine (positions : Bool) (t : Token) (index : Nat) : String :=
  if t.kind = .eof then "\n" ++ column index ++ " | " ++ t.kind.label ++ "\n"
  else
    column index ++ " | " ++ t.kind.label ++ " | " ++ Text.shown t.value
      ++ (if positions then " | " ++ t.span.describe else "") ++ "\n"

/-- The line around a list of tokens. -/
def ruler : String := String.ofList (List.replicate 80 '=') ++ "\n"

/-- Shows the tokens of a file. -/
def lex (t : FileTree) (input : Path) (positions : Bool) : Response :=
  match t.readText input with
  | .error fault => .failed t "" ["Error reading file: " ++ fault.describe]
  | .ok source =>
    let tokens := tokenize source
    let errors := tokens.filter (·.kind = .error)
    let output := "Tokens for " ++ input.text ++ ":\n\n" ++ ruler
      ++ String.join (tokens.mapIdx fun i token => tokenLine positions token i)
      ++ ruler ++ "\nTotal tokens: " ++ toString tokens.length ++ "\n"
    if errors.isEmpty then .succeeded t output
    else
      .failed t (output ++ "\nLexer errors found: " ++ toString errors.length ++ "\n")
        (errors.map fun e => input.text ++ ": " ++ e.value ++ " at " ++ e.span.describe)

/-- What is shown of a part of a module. -/
def visitLine : Visit → String
  | .program p => "program " ++ p.span.describe ++ "\n"
  | .item i => "item " ++ i.span.describe ++ "\n"
  | .stmt s => "statement " ++ s.span.describe ++ "\n"
  | .expr e => "expression " ++ e.span.describe ++ "\n"
  | .pattern p => "pattern " ++ p.span.describe ++ "\n"
  | _ => ""

/-- Reads a file as a module, and shows its parts. -/
def parse (t : FileTree) (input : Path) : Response :=
  match t.readText input with
  | .error fault => .failed t "" ["Error reading file: " ++ fault.describe]
  | .ok source =>
    match Program.parse source with
    | .ok program => .succeeded t (String.join (program.visits.map visitLine))
    | .error errors => .failed t "" (parseComplaints input errors)

/-- Does what a command says. -/
def execute (reader : JsonReader) (t : FileTree) : Command → Response
  | .bundle a => bundle reader t a
  | .lex input positions => lex t input positions
  | .parse input => parse t input
  | .say text => .succeeded t text

/-- Does what the arguments say; those that cannot be understood have a code of their own. -/
def run (reader : JsonReader) (t : FileTree) (arguments : List String) : Response :=
  match Command.ofArguments arguments with
  | some command => execute reader t command
  | none => ⟨2, "", ["error: these arguments are not understood", "", Usage.program], t⟩

end CommandLine
end ModuleBundler
