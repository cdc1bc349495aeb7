import ModuleBundler.FileTree.Basic
import ModuleBundler.Json.Basic
import ModuleBundler.Options

/-! The files that say how to bundle. -/
namespace ModuleBundler

/-- The values of fields that may be given as an object, where each field comes at most once and
there are no others, or as an array in the order of the fields. Fields behind the first
`required` may be missing at the end of an array. -/
def Json.fields? (names : List String) (required : Nat) : Json → Option (List (Option Json))
  | .object members =>
    let keys := members.map (·.1)
    if keys.all (names.contains ·) ∧ keys.Nodup then some (names.map (members.lookup ·)) else none
  | .array items =>
    if required ≤ items.length ∧ items.length ≤ names.length then
      some (names.mapIdx fun i _ => items[i]?)
    else none
  | _ => none

/-- A list of texts, which may be missing or null. -/
def Json.texts? : Option Json → Option (Option (List String))
  | none | some .null => some none
  | some (.array items) =>
    some <$> items.mapM fun item =>
      match item with
      | .string s => some s
      | _ => none
  | _ => none

/-- Puts a member in the place of one with its key, or behind all others. -/
def Json.setMember (members : List (String × Json)) (key : String) (value : Json) :
    List (String × Json) :=
  if members.any (·.1 = key) then
    members.map fun member => if member.1 = key then (key, value) else member
  else members ++ [(key, value)]

/-- The entry points as they are written in a configuration. -/
inductive EntryConfig where
  | single (path : Path)
  | named (members : List (String × Json))

/-- A configuration as it is written. -/
structure Config where
  context : Option Path
  entry : Option EntryConfig
  outputPath : Option Path
  filename : Option String
  extensions : Option (List String)

namespace Config

/-- The entry points: a path, or an object in which the last value of a key counts. -/
def entry? : Option Json → Option (Option EntryConfig)
  | none | some .null => some none
  | some (.string path) => some (some (.single ⟨path⟩))
  | some (.object members) =>
    some (some (.named (members.foldl (fun ms m => Json.setMember ms m.1 m.2) [])))
  | _ => none

/-- The directory and the name of the files to write. -/
def output? : Option Json → Option (Option Path × Option String)
  | none => some (none, none)
  | some j => do
    match ← j.fields? ["path", "filename"] 2 with
    | [path, filename] => return ((← Json.text? path).map Path.mk, ← Json.text? filename)
    | _ => none

/-- The extensions to try. -/
def resolve? : Option Json → Option (Option (List String))
  | none => some none
  | some j => do
    match ← j.fields? ["extensions"] 1 with
    | [extensions] => Json.texts? extensions
    | _ => none

/-- Reads a configuration; nothing may stand in it that is not known. -/
def ofJson? (j : Json) : Option Config := do
  match ← j.fields? ["context", "entry", "output", "resolve"] 2 with
  | [context, entry, output, resolve] =>
    let context ← Json.text? context
    let entry ← entry? entry
    let (path, filename) ← output? output
    let extensions ← resolve? resolve
    return ⟨context.map Path.mk, entry, path, filename, extensions⟩
  | _ => none

/-- Reads a configuration. -/
def parse? (reader : JsonReader) (text : String) : Option Config := reader.read text >>= ofJson?

/-- Reads a configuration from a file. -/
def load (reader : JsonReader) (t : FileTree) (p : Path) : Except ConfigError Config := do
  let text ← (t.readText p).mapError (.read p)
  match parse? reader text with
  | some config => .ok config
  | none => .error (.parse p)

/-- The named entry points; each has a path. -/
def points : List (String × Json) → Except ConfigError (List (String × Path))
  | [] => .ok []
  | (name, .string path) :: members => do return (name, ⟨path⟩) :: (← points members)
  | (name, _) :: _ => .error (.invalidEntry name)

/-- The entry points; if they have names, there is at least one and the names differ. -/
def entryPoints (c : Config) : Except ConfigError Entry :=
  match c.entry with
  | none => .ok (.named [])
  | some (.single path) => .ok (.single path)
  | some (.named members) => do
    let entry := Entry.named (← points members)
    entry.validate
    return entry

/-- The options that a configuration stands for; its paths are seen from a directory. -/
def options (c : Config) (reader : JsonReader) (base : Path) : Except ConfigError Options := do
  let entry ← c.entryPoints
  let defaults : Options := { packageMain := reader.packageMain, context := base, entry }
  return { defaults with
    context := (c.context.map base.absolutize).getD base
    outputPath := c.outputPath.map base.absolutize
    filename := c.filename.getD defaults.filename
    extensions := c.extensions.getD defaults.extensions }

end Config

end ModuleBundler
