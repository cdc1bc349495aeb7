import ModuleBundler.Error
import ModuleBundler.FileTree.Basic
import ModuleBundler.Path.Logical

/-! Which file a specifier leads to. -/
namespace ModuleBundler

/-- Where specifiers are looked up: in a tree of files, with extensions to try. -/
structure Resolver where
  tree : FileTree
  extensions : List String
  /-- What the description of a package says about its main file, or why it is none. -/
  packageMain : String → Except String (Option String)

/-- Candidates that were tried, and the first of them that is a file, which is not among them. -/
structure Search where
  attempted : List Path
  found : Option Path
  deriving DecidableEq, Repr

namespace Search

/-- Nothing has been tried. -/
def nothing : Search := ⟨[], none⟩

/-- Goes on with a second search if the first one found nothing. -/
def orElse (s : Search) (other : Search) : Search :=
  match s.found with
  | some _ => s
  | none => ⟨s.attempted ++ other.attempted, other.found⟩

/-- Tries candidates in their order. -/
def first (t : FileTree) : List Path → Search
  | [] => nothing
  | p :: ps => if t.isFile p then ⟨[], some p⟩ else (Search.mk [p] none).orElse (first t ps)

end Search

/-- A specifier that says where to go from the importing file. -/
def isRelativeSpecifier (specifier : String) : Bool :=
  specifier = "." || specifier = ".." || specifier.startsWith "./" || specifier.startsWith "../"

/-- The name of a package and what is wanted in it: they are parted by the first slash, or by the
second one behind the name of a scope. -/
def splitPackage (specifier : String) : String × Option String :=
  match Path.splitSlash specifier.toList with
  | scope@('@' :: _) :: name :: inside@(_ :: _) =>
    (String.ofList (scope ++ '/' :: name), some (String.ofList (Path.joinSlash inside)))
  | ('@' :: _) :: _ => (specifier, none)
  | name :: inside@(_ :: _) =>
    (String.ofList name, some (String.ofList (Path.joinSlash inside)))
  | _ => (specifier, none)

/-- The path with something written behind its last name. -/
def Path.withSuffix (p : Path) (suffix : String) : Path := ⟨p.text ++ suffix⟩

namespace Resolver

/-- A path with each of the extensions. -/
def extended (r : Resolver) (p : Path) : List Path := r.extensions.map p.withSuffix

/-- What a path may stand for: a file, a file without its extension, or a directory with an
index. -/
def candidates (r : Resolver) (p : Path) : List Path :=
  p :: r.extended p ++ (if r.tree.isDirectory p then r.extended (p.push ⟨"index"⟩) else [])

/-- Looks for a file that a path stands for. -/
def probe (r : Resolver) (p : Path) : Search := .first r.tree (r.candidates p)

/-- The main file of a package, if its description names one. -/
def main? (r : Resolver) (package : Path) : Except ResolveError (Option String) :=
  let description := package.push ⟨"package.json"⟩
  if r.tree.isFile description then
    match r.tree.readText description with
    | .error fault => .error (.package description fault.describe)
    | .ok text =>
      (r.packageMain text).mapError (.package description)
  else .ok none

/-- Looks for what is wanted in a package: a path in it, or its main file or index. -/
def searchPackage (r : Resolver) (package : Path) : Option String → Except ResolveError Search
  | some inside => .ok (r.probe (package.absolutize ⟨inside⟩))
  | none => do
    let index := r.probe (package.push ⟨"index"⟩)
    match ← r.main? package with
    | some main => return (r.probe (package.absolutize ⟨main⟩)).orElse index
    | none => return index

/-- Looks for a package in directories, the first one that has it. -/
def searchDirectories (r : Resolver) (name : String) (inside : Option String) :
    List Path → Except ResolveError Search
  | [] => .ok .nothing
  | directory :: others =>
    let package := (directory.push ⟨"node_modules"⟩).push ⟨name⟩
    if r.tree.isDirectory package then r.searchPackage package inside
    else do return (Search.mk [package] none).orElse (← r.searchDirectories name inside others)

/-- Looks for what a specifier means in a directory. -/
def search (r : Resolver) (specifier : String) (directory : Path) : Except ResolveError Search :=
  if isRelativeSpecifier specifier || (Path.mk specifier).isAbsolute then
    .ok (r.probe (directory.absolutize ⟨specifier⟩))
  else
    let (name, inside) := splitPackage specifier
    r.searchDirectories name inside directory.ancestors

/-- The path without links of what was found. -/
def canonical (r : Resolver) (p : Path) : Path :=
  match r.tree.canonical p with
  | .ok q => q
  | .error _ => p

/-- The outcome of a search. -/
def conclude (r : Resolver) (specifier : String) (importer : Option Path) (s : Search) :
    Except ResolveError Path :=
  match s.found with
  | some p => .ok (r.canonical p)
  | none => .error (.notFound specifier importer s.attempted)

/-- The file that a specifier means in another file. -/
def resolve (r : Resolver) (specifier : String) (importer : Path) : Except ResolveError Path := do
  let directory := importer.parent?.getD ⟨"/"⟩
  r.conclude specifier (some importer) (← r.search specifier directory)

/-- The file that an entry point means. -/
def resolveEntry (r : Resolver) (context entry : Path) : Except ResolveError Path :=
  r.conclude entry.text none (r.probe (context.absolutize entry))

end Resolver

namespace Search

/-- What is found is a file among the candidates, and all before it are none. -/
theorem first_found_iff {t : FileTree} {ps : List Path} {p : Path} :
    (first t ps).found = some p ↔ ps.find? t.isFile = some p := by
  induction ps with
  | nil => simp [first, nothing]
  | cons q qs ih =>
    unfold first
    split
    · next h => simp [List.find?, h]
    · next h => simpa [List.find?, h, orElse] using ih

/-- Where nothing is found, all candidates were tried. -/
theorem first_attempted {t : FileTree} {ps : List Path} (h : (first t ps).found = none) :
    (first t ps).attempted = ps := by
  induction ps with
  | nil => rfl
  | cons q qs ih =>
    unfold first at h ⊢
    split at h
    · simp at h
    · next hq =>
      simp only [orElse] at h
      simp [hq, orElse, ih h]

end Search

example : splitPackage "@a/b/c/d" = ("@a/b", some "c/d") := by decide
example : splitPackage "a" = ("a", none) ∧ splitPackage "@a/b" = ("@a/b", none) := by
  decide

end ModuleBundler
