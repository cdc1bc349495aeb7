import ModuleBundler.Edit
import ModuleBundler.FileTree.Basic
import ModuleBundler.Grammar.Error

/-! All that can go wrong in a pass, and how it is said. -/
namespace ModuleBundler

/-- Why a specifier leads to no file. -/
inductive ResolveError where
  /-- None of the attempted paths is a file; an entry point has no importer. -/
  | notFound (specifier : String) (importer : Option Path) (attempted : List Path)
  /-- The description of a package cannot be read. -/
  | package (path : Path) (reason : String)
  deriving DecidableEq, Repr

/-- A tap failed. -/
structure HookError where
  hook : String
  tap : String
  reason : String
  deriving DecidableEq, Repr

/-- What is wrong with a configuration. -/
inductive ConfigError where
  | read (path : Path) (fault : FileFault)
  | parse (path : Path)
  | missingEntry
  | invalidEntry (entry : String)
  | duplicateEntry (name : String)
  | duplicateFilename (filename : String)
  | context (path : Path) (fault : FileFault)
  deriving DecidableEq, Repr

/-- Why a pass fails. -/
inductive BundleError where
  | resolve (error : ResolveError)
  /-- A call of `require` that names no module. -/
  | dynamicRequire (importer : Path) (span : Span)
  /-- The spans of the errors are in `source`, the text after all transforms. -/
  | parse (path : Path) (source : String) (errors : List ParseError)
  | transform (name : String) (path : Path) (reason : String)
  | read (path : Path) (fault : FileFault)
  | write (path : Path) (fault : FileFault)
  | edit (path : Path) (conflict : EditConflict)
  | hook (error : HookError)
  | config (error : ConfigError)
  deriving DecidableEq, Repr

/-- The error in words. -/
def ResolveError.message : ResolveError → String
  | notFound specifier importer attempted =>
    let what :=
      match importer with
      | some importer =>
        "Module not found: can't resolve '" ++ specifier ++ "' from " ++ importer.text
      | none => "Module not found: can't resolve entry '" ++ specifier ++ "'"
    if attempted.isEmpty then what
    else what ++ " (tried " ++ String.intercalate ", " (attempted.map (·.text)) ++ ")"
  | package path reason => "Invalid package.json at " ++ path.text ++ ": " ++ reason

/-- The error in words. -/
def HookError.message (e : HookError) : String :=
  e.hook ++ " hook tap '" ++ e.tap ++ "' failed: " ++ e.reason

/-- The error in words. -/
def ConfigError.message : ConfigError → String
  | read path fault => "Failed to read config file " ++ path.text ++ ": " ++ fault.describe
  | parse path => "Failed to parse config file " ++ path.text
  | missingEntry => "No entry point configured"
  | invalidEntry entry => "Invalid entry '" ++ entry ++ "': expected name=path"
  | duplicateEntry name => "Duplicate entry name '" ++ name ++ "'"
  | duplicateFilename filename =>
    "Several chunks would be written to '" ++ filename ++ "'; use [name] in output.filename"
  | context path fault =>
    "Context directory " ++ path.text ++ " is not accessible: " ++ fault.describe

/-- The first of several errors, and how many follow. -/
def ParseError.summary : List ParseError → String
  | [] => ""
  | [e] => ": " ++ e.describe
  | e :: es => ": " ++ e.describe ++ " (and " ++ toString es.length ++ " more)"

/-- The error in words. -/
def BundleError.message : BundleError → String
  | resolve error => error.message
  | dynamicRequire importer span =>
    "require() in " ++ importer.text ++ " at " ++ span.describe
      ++ " must take a single string literal argument"
  | parse path _ errors => "Failed to parse " ++ path.text ++ ParseError.summary errors
  | transform name path reason =>
    "Transform '" ++ name ++ "' failed on " ++ path.text ++ ": " ++ reason
  | read path fault => "Failed to read " ++ path.text ++ ": " ++ fault.describe
  | write path fault => "Failed to write " ++ path.text ++ ": " ++ fault.describe
  | edit path conflict => "Failed to rewrite " ++ path.text ++ ": " ++ conflict.describe
  | hook error => error.message
  | config error => error.message

end ModuleBundler
