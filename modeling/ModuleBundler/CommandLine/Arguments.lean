import ModuleBundler.CommandLine.Usage
import ModuleBundler.Path.Basic

/-! What the arguments of the program ask it to do. -/
namespace ModuleBundler

/-- What to bundle, as far as the arguments say. -/
structure BundleArguments where
  entries : List Path
  /-- Each is a name and a path with an equals sign between them. -/
  named : List String
  output : Option Path
  filename : Option String
  extensions : List String
  context : Option Path
  config : Option Path
  /-- The result is written as structured data. -/
  json : Bool
  deriving DecidableEq, Repr

/-- Something the program can do. -/
inductive Command where
  | bundle (arguments : BundleArguments)
  | lex (input : Path) (positions : Bool)
  | parse (input : Path)
  /-- Says something about the program. -/
  | say (text : String)
  deriving DecidableEq, Repr

namespace Arguments

/-- What an option is for. -/
inductive OptionKind where
  | help
  | switch
  | text
  | path
  /-- May come again. -/
  | texts
  deriving DecidableEq, Repr

/-- An option, written with two dashes, or with one if it has a letter. -/
structure OptionRule where
  name : String
  letter : Option Char
  kind : OptionKind
  deriving DecidableEq, Repr

/-- The options that a command has, and how many other arguments there may be. -/
structure Rules where
  options : List OptionRule
  limit : Option Nat
  deriving DecidableEq, Repr

/-- Options that were given, in their order and with their values, and the other arguments. -/
structure Given where
  options : List (String × String)
  others : List String
  deriving DecidableEq, Repr

/-- What comes of the arguments of a command. -/
inductive Scan where
  | given (given : Given)
  | help
  | refused
  deriving DecidableEq, Repr

namespace Given

/-- All values of an option. -/
def values (g : Given) (name : String) : List String :=
  (g.options.filter (·.1 = name)).map (·.2)

/-- Whether an option was given. -/
def has (g : Given) (name : String) : Bool := g.options.any (·.1 = name)

/-- The value of an option. -/
def value? (g : Given) (name : String) : Option String := (g.values name).head?

/-- The path that is the value of an option. -/
def path? (g : Given) (name : String) : Option Path := (g.value? name).map Path.mk

/-- The arguments with one more option, unless it may not come again or has no path. -/
def addOption (g : Given) (rule : OptionRule) (value : String) : Option Given :=
  if rule.kind ≠ .texts ∧ g.has rule.name ∨ rule.kind = .path ∧ value.isEmpty then none
  else some { g with options := g.options ++ [(rule.name, value)] }

/-- The arguments with one that is no option, unless there are too many or it is empty. -/
def addOther (g : Given) (limit : Option Nat) (argument : String) : Option Given :=
  if argument.isEmpty || limit.any (· ≤ g.others.length) then none
  else some { g with others := g.others ++ [argument] }

end Given

/-- What an argument is by its dashes. -/
inductive Shape where
  /-- Two dashes alone: no options follow. -/
  | stop
  /-- A name, and the value behind an equals sign. -/
  | long (name : String) (value : Option String)
  /-- Letters, and what follows the first. -/
  | short (letter : Char) (rest : List Char)
  | plain
  deriving DecidableEq, Repr

/-- What an argument is by its dashes; one dash alone means nothing. -/
def shape (argument : String) : Shape :=
  match argument.toList with
  | ['-', '-'] => .stop
  | '-' :: '-' :: cs =>
    let name := cs.takeWhile (· ≠ '=')
    let value :=
      match cs.drop name.length with
      | [] => none
      | _ :: value => some (String.ofList value)
    .long (String.ofList name) value
  | '-' :: c :: cs => .short c cs
  | _ => .plain

/-- What comes of letters behind a dash. -/
inductive Cluster where
  | done (given : Given)
  /-- The value of the last letter is the next argument. -/
  | needsValue (rule : OptionRule) (given : Given)
  | help
  | refused
  deriving DecidableEq, Repr

/-- Reads letters behind a dash. What follows the letter of an option with a value is the value,
behind an equals sign or not. -/
def cluster (rules : Rules) (g : Given) (letter : Char) (cs : List Char) : Cluster :=
  match rules.options.find? (·.letter = some letter) with
  | none => .refused
  | some rule =>
    match rule.kind with
    | .help => .help
    | .switch =>
      match g.addOption rule "" with
      | none => .refused
      | some g =>
        match cs with
        | [] => .done g
        | c :: cs => cluster rules g c cs
    | _ =>
      match cs with
      | [] => .needsValue rule g
      | c :: value =>
        let value := if c = '=' then value else c :: value
        match g.addOption rule (String.ofList value) with
        | none => .refused
        | some g => .done g
  termination_by cs.length

/-- All arguments are no options. -/
def scanOthers (rules : Rules) (g : Given) : List String → Scan
  | [] => .given g
  | argument :: arguments =>
    match g.addOther rules.limit argument with
    | none => .refused
    | some g => scanOthers rules g arguments

/-- Reads arguments up to the first that is wrong or asks for help. The value of an option does
not look like an option. -/
def scan (rules : Rules) (g : Given) : List String → Scan
  | [] => .given g
  | argument :: arguments =>
    let withValue (rule : OptionRule) (g : Given) : Scan :=
      match arguments with
      | [] => .refused
      | value :: arguments =>
        if shape value = .plain then
          match g.addOption rule value with
          | none => .refused
          | some g => scan rules g arguments
        else .refused
    match shape argument with
    | .stop => scanOthers rules g arguments
    | .plain =>
      match g.addOther rules.limit argument with
      | none => .refused
      | some g => scan rules g arguments
    | .long name value =>
      match rules.options.find? (·.name = name) with
      | none => .refused
      | some rule =>
        match rule.kind, value with
        | .help, none => .help
        | .help, some _ | .switch, some _ => .refused
        | .switch, none =>
          match g.addOption rule "" with
          | none => .refused
          | some g => scan rules g arguments
        | _, some value =>
          match g.addOption rule value with
          | none => .refused
          | some g => scan rules g arguments
        | _, none => withValue rule g
    | .short letter cs =>
      match cluster rules g letter cs with
      | .done g => scan rules g arguments
      | .needsValue rule g => withValue rule g
      | .help => .help
      | .refused => .refused

/-- Asking for help. -/
def helpRule : OptionRule := ⟨"help", some 'h', .help⟩

/-- The options for bundling. -/
def bundleRules : Rules where
  options := [
    ⟨"entry", none, .texts⟩, ⟨"output", some 'o', .path⟩, ⟨"filename", none, .text⟩,
    ⟨"ext", none, .texts⟩, ⟨"context", none, .path⟩, ⟨"config", some 'c', .path⟩,
    ⟨"watch", some 'w', .switch⟩, ⟨"json", none, .switch⟩, ⟨"verbose", some 'v', .switch⟩,
    helpRule]
  limit := none

/-- The options for showing tokens. -/
def lexRules : Rules := ⟨[⟨"positions", some 'p', .switch⟩, helpRule], some 1⟩

/-- The options for reading a module. -/
def parseRules : Rules := ⟨[helpRule], some 1⟩

/-- What to bundle. -/
def bundle (g : Given) : Option Command :=
  some (.bundle {
    entries := g.others.map Path.mk
    named := g.values "entry"
    output := g.path? "output"
    filename := g.value? "filename"
    extensions := g.values "ext"
    context := g.path? "context"
    config := g.path? "config"
    json := g.has "json" })

/-- Which file's tokens to show. -/
def lex (g : Given) : Option Command :=
  g.others.head?.map fun input => .lex ⟨input⟩ (g.has "positions")

/-- Which module to read. -/
def parse (g : Given) : Option Command := g.others.head?.map fun input => .parse ⟨input⟩

/-- A command of the program, with how its arguments are read. -/
structure CommandRule where
  name : String
  rules : Rules
  usage : String
  command : Given → Option Command

/-- All commands. -/
def commands : List CommandRule := [
  ⟨"bundle", bundleRules, Usage.bundle, bundle⟩,
  ⟨"lex", lexRules, Usage.lex, lex⟩,
  ⟨"parse", parseRules, Usage.parse, parse⟩]

/-- Help about a command, or about the program. -/
def help : List String → Option Command
  | [] | ["help"] => some (.say Usage.program)
  | [name] => (commands.find? (·.name = name)).map fun rule => .say rule.usage
  | _ => none

end Arguments

/-- What the arguments of the program ask for, if they can be understood. -/
def Command.ofArguments : List String → Option Command
  | [] => none
  | "help" :: names => Arguments.help names
  | name :: arguments =>
    match Arguments.commands.find? (·.name = name) with
    | some rule =>
      match Arguments.scan rule.rules ⟨[], []⟩ arguments with
      | .given g => rule.command g
      | .help => some (.say rule.usage)
      | .refused => none
    | none =>
      match Arguments.shape name with
      | .long "help" none | .short 'h' _ => some (.say Usage.program)
      | .long "version" none | .short 'V' _ => some (.say Usage.version)
      | _ => none

end ModuleBundler
