import ModuleBundler.Bundle.Compilation
import ModuleBundler.Json.Basic

/-! The result of a pass as structured data. -/
namespace ModuleBundler

/-- What is told about a chunk. -/
def Chunk.toJson (c : Chunk) : Json := .object [
  ("name", .string c.name),
  ("entryModule", .string c.entry),
  ("modules", .array (c.modules.map .string)),
  ("filename", .string c.filename)]

/-- What is told about a dependency. -/
def Dependency.toJson (d : Dependency) : Json :=
  .object [("id", .string d.id), ("path", .string d.path.text)]

/-- What is told about a module; where its file is, its name says. -/
def Module.toJson (m : Module) : Json := .object [
  ("id", .string m.id),
  ("names", .array (m.names.map .string)),
  ("dependencies", .array (m.dependencies.map (·.toJson))),
  ("source", .string m.source)]

/-- What is told about a pass. -/
def Stats.toJson (s : Stats) : Json := .object [
  ("chunks", .array (s.chunks.map (·.toJson))),
  ("modules", .array (s.modules.map (·.toJson))),
  ("assets", .object (s.assets.map fun a => (a.filename, .string a.text)))]

end ModuleBundler
