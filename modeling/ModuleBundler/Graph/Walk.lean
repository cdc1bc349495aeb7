import ModuleBundler.Graph.Load

/-! Walks from an entry point through all that it depends on. A module is built once, after the
modules that it depends on; those that depend on it in turn are not waited for. -/
namespace ModuleBundler

/-- A module that waits until its dependencies are built. -/
structure Frame where
  module : Module
  /-- The dependencies that have not been looked at. -/
  ahead : List Dependency

/-- A walk that is under way: what is built, the modules that wait, the last one first, and their
ids. -/
structure Walk where
  graph : Graph
  stack : List Frame
  inProgress : List String

namespace Walk

/-- How much there is to do without loading a module. -/
def work (stack : List Frame) : Nat := stack.foldr (fun f rest => f.ahead.length + 1 + rest) 0

/-- The walk at its first module. -/
def start (g : Graph) (m : Module) : Walk := ⟨g, [⟨m, m.dependencies⟩], [m.id]⟩

/-- The walk after its last module was built. -/
def pop (g : Graph) (m : Module) (stack : List Frame) (inProgress : List String) : Walk :=
  ⟨g.append m, stack, inProgress.filter (· ≠ m.id)⟩

/-- The walk after a module was loaded that has to wait. -/
def push (w : Walk) (m : Module) (touched : PathSet) : Walk :=
  ⟨{ w.graph with touched }, ⟨m, m.dependencies⟩ :: w.stack, m.id :: w.inProgress⟩

/-- Goes on until a module has to be loaded: the walk at that point, and the dependency that has
to be loaded for it, if there is any. -/
def settle (name : String) : Walk → Walk × Option Dependency
  | ⟨g, [], inProgress⟩ => (⟨g, [], inProgress⟩, none)
  | ⟨g, ⟨m, []⟩ :: stack, inProgress⟩ => settle name (pop g m stack inProgress)
  | ⟨g, ⟨m, d :: ahead⟩ :: stack, inProgress⟩ =>
    if g.has d.id then settle name ⟨g.spreadName d.id name, ⟨m, ahead⟩ :: stack, inProgress⟩
    else if inProgress.contains d.id then settle name ⟨g, ⟨m, ahead⟩ :: stack, inProgress⟩
    else (⟨g, ⟨m, ahead⟩ :: stack, inProgress⟩, some d)
  termination_by w => work w.stack
  decreasing_by all_goals simp [work, pop]

/-- Goes on to the end of the walk, or to the first failure. At most `budget` modules are loaded;
in a tree of files there are no more of them than files. -/
def finish (p : Project) (name : String) : (budget : Nat) → Walk → Graph × Option BundleError
  | budget, w =>
    match settle name w, budget with
    | (w, none), _ => (w.graph, none)
    | (w, some d), 0 => (w.graph, some (.read d.path .notFound))
    | (w, some d), budget + 1 =>
      match p.load name d.path w.graph.touched with
      | (touched, .error e) => ({ w.graph with touched }, some e)
      | (touched, .ok m) => finish p name budget (w.push m touched)

end Walk

namespace Graph

/-- Builds all that an entry point depends on, and says which module is in its file. What was
built before is not built again: it gets the name of the entry point. -/
def addEntry (g : Graph) (p : Project) (name : String) (path : Path) :
    Graph × Except BundleError String :=
  let g := g.touch path
  let id := p.idOf path
  if g.has id then (g.spreadName id name, .ok id)
  else
    match p.load name path g.touched with
    | (touched, .error e) => ({ g with touched }, .error e)
    | (touched, .ok m) =>
      match Walk.finish p name p.resolver.tree.nodes.length (.start { g with touched } m) with
      | (g, none) => (g, .ok id)
      | (g, some e) => (g, .error e)

end Graph
end ModuleBundler
