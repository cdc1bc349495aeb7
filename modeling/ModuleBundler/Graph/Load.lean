import ModuleBundler.Analysis.Module
import ModuleBundler.Graph.Basic
import ModuleBundler.Resolve
import ModuleBundler.Transform.Rule

/-! Making a module from a file. -/
namespace ModuleBundler

/-- What modules are made from. -/
structure Project where
  /-- The directory that the names of modules are seen from. -/
  context : Path
  resolver : Resolver
  rules : List Rule

namespace Project

/-- The name of the module in a file. -/
def idOf (p : Project) (path : Path) : String := p.context.moduleId path

/-- The text of a file after all transforms, with what it asks for. -/
def read (p : Project) (path : Path) : Except BundleError (String × Analysis) := do
  let raw ← (p.resolver.tree.readText path).mapError (.read path)
  let source ← Rule.run p.rules path raw
  let program ← (Program.parse source).mapError (.parse path source)
  let analysis ← (Analysis.ofProgram program source).mapError (.dynamicRequire path)
  return (source, analysis)

/-- The modules that requests mean in a file, and the files looked at; the first request without
an answer is the last one looked at. -/
def answer (p : Project) (importer : Path) (touched : PathSet) :
    List Request → PathSet × Except BundleError (List Dependency)
  | [] => (touched, .ok [])
  | request :: requests =>
    match p.resolver.resolve request.specifier importer with
    | .error e => (touched, .error (.resolve e))
    | .ok path =>
      match p.answer importer (touched.insert path) requests with
      | (touched, .ok dependencies) => (touched, .ok (⟨p.idOf path, path⟩ :: dependencies))
      | failed => failed

/-- The module in a file, reached by an entry point, and the files looked at. -/
def load (p : Project) (name : String) (path : Path) (touched : PathSet) :
    PathSet × Except BundleError Module :=
  match p.read path with
  | .error e => (touched, .error e)
  | .ok (source, analysis) =>
    match p.answer path touched analysis.requests with
    | (touched, .error e) => (touched, .error e)
    | (touched, .ok dependencies) =>
      match Edit.apply (analysis.edits (dependencies.map (·.id))) source with
      | .error conflict => (touched, .error (.edit path conflict))
      | .ok text => (touched, .ok ⟨p.idOf path, path, [name], dependencies, text⟩)

theorem load_id {p : Project} {name : String} {path : Path} {touched after : PathSet} {m : Module}
    (h : p.load name path touched = (after, .ok m)) :
    m.id = p.idOf path ∧ m.path = path ∧ m.names = [name] := by
  unfold load at h
  split at h
  · simp at h
  · split at h
    · simp at h
    · split at h
      · simp at h
      · simp at h
        obtain ⟨-, rfl⟩ := h
        exact ⟨rfl, rfl, rfl⟩

end Project
end ModuleBundler
