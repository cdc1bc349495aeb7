import ModuleBundler.Bundle.Script
import ModuleBundler.Graph.Walk
import ModuleBundler.Options

/-! A pass: from entry points to modules, chunks and the texts to write. -/
namespace ModuleBundler

/-- What is written for an entry point. -/
structure Chunk where
  name : String
  /-- The name of the module where it starts. -/
  entry : String
  /-- The names of its modules, in the order in which they were built. -/
  modules : List String
  filename : String
  deriving DecidableEq, Repr

/-- A text, and the name of the file for it. -/
structure Asset where
  filename : String
  text : String
  deriving DecidableEq, Repr

/-- The result of a pass. -/
structure Stats where
  chunks : List Chunk
  modules : List Module
  /-- In the order of the file names. -/
  assets : List Asset
  /-- Every file that was looked at. -/
  files : PathSet

namespace Stats

/-- The chunk of a name. -/
def chunk? (s : Stats) (name : String) : Option Chunk := s.chunks.find? (·.name = name)

/-- The module of a name. -/
def module? (s : Stats) (id : String) : Option Module := s.modules.find? (·.id = id)

/-- The text that is written to a file. -/
def asset? (s : Stats) (filename : String) : Option String :=
  (s.assets.find? (·.filename = filename)).map (·.text)

end Stats

namespace Graph

/-- The modules that an entry point reaches. -/
def reached (g : Graph) (name : String) : List Module := g.modules.filter (·.hasName name)

end Graph

namespace Compilation

/-- The project of options whose files are in a tree. -/
def project (o : Options) (t : FileTree) : Project := 
  ⟨o.context, ⟨t, o.extensions, o.packageMain⟩, o.rules⟩

/-- Builds the modules of entry points, and says which chunk there is for each. -/
def chunks (o : Options) (p : Project) (g : Graph) :
    List (String × Path) → Graph × Except BundleError (List Chunk)
  | [] => (g, .ok [])
  | (name, entry) :: points =>
    match p.resolver.resolveEntry o.context entry with
    | .error e => (g, .error (.resolve e))
    | .ok path =>
      match g.addEntry p name path with
      | (g, .error e) => (g, .error e)
      | (g, .ok id) =>
        let chunk := ⟨name, id, (g.reached name).map (·.id), o.filenameFor name⟩
        match chunks o p g points with
        | (g, .ok others) => (g, .ok (chunk :: others))
        | failed => failed

/-- Renders chunks; no two are for the same file. -/
def assets (g : Graph) (before : List String) : List Chunk → Except BundleError (List Asset)
  | [] => .ok []
  | chunk :: chunks =>
    if chunk.filename ∈ before then .error (.config (.duplicateFilename chunk.filename))
    else
      match g.find? chunk.entry with
      | none => assets g before chunks
      | some entry => do
        let text := Script.render entry (chunk.modules.filterMap g.find?)
        return ⟨chunk.filename, text⟩ :: (← assets g (chunk.filename :: before) chunks)

/-- Assets in the order of the file names. -/
def sortAssets (as : List Asset) : List Asset := as.mergeSort fun a b => !(b.filename < a.filename)

/-- The result of a pass, and the files that were looked at, whether it fails or not. -/
def build (o : Options) (t : FileTree) : PathSet × Except BundleError Stats :=
  match o.entry.validate with
  | .error e => (.empty, .error (.config e))
  | .ok () =>
    match chunks o (project o t) .empty o.entry.points with
    | (g, .error e) => (g.touched, .error e)
    | (g, .ok cs) =>
      match assets g [] cs with
      | .error e => (g.touched, .error e)
      | .ok as => (g.touched, .ok ⟨cs, g.modules, sortAssets as, g.touched⟩)

end Compilation
end ModuleBundler
