import ModuleBundler.Resolve

/-! The shape of a tree: all but the texts of its files. Where a path leads does not depend on more;
what a specifier means depends on the descriptions of packages besides. -/
namespace ModuleBundler

/-- A node without its text. -/
def FileNode.shape : FileNode → FileNode
  | directory => directory
  | file _ => file none
  | link target => link target

@[simp] theorem FileNode.shape_eq_directory {node : FileNode} :
    node.shape = directory ↔ node = directory := by cases node <;> simp [shape]

@[simp] theorem FileNode.shape_eq_link {node : FileNode} {target : Path} :
    node.shape = link target ↔ node = link target := by cases node <;> simp [shape]

def Place.shape (place : Place) : Place := ⟨place.location, place.node.map FileNode.shape⟩

namespace FileTree

/-- The tree with no text in any file. -/
def shape (t : FileTree) : FileTree :=
  { t with nodes := t.nodes.map fun (location, node) => (location, node.shape) }

variable {t : FileTree} {through : Bool} {p : Path}

@[simp] theorem shape_home : t.shape.home = t.home := rfl

@[simp] theorem shape_nodes_length : t.shape.nodes.length = t.nodes.length := by simp [shape]

@[simp] theorem node?_shape (l : Location) : t.shape.node? l = (t.node? l).map FileNode.shape := by
  cases l with
  | nil => simp [FileNode.shape]
  | cons name names =>
    simp only [node?, shape]
    induction t.nodes with
    | nil => rfl
    | cons x nodes ih =>
      rw [List.map_cons, List.lookup_cons, List.lookup_cons]
      split
      · rfl
      · exact ih

theorem walk_shape {enter enter' : Path → Location → List String → Except FileFault Place}
    (henter : ∀ target here rest,
      enter' target here rest = (enter target here rest).map Place.shape)
    (here : Location) (steps : List String) :
    t.shape.walk through enter' here steps
      = (t.walk through enter here steps).map Place.shape := by
  induction steps generalizing here with
  | nil => simp [walk, Except.map, Place.shape]
  | cons step rest ih =>
    rw [walk, walk]
    have hdir : t.shape.node? here = some .directory ↔ t.node? here = some .directory := by simp
    simp only [ne_eq, hdir, ih]
    split
    · rfl
    split
    · rfl
    split
    · rfl
    split
    · rfl
    rw [node?_shape]
    cases t.node? (here ++ [step]) with
    | none =>
      simp only [Option.map_none]
      split <;> rfl
    | some node =>
      cases node with
      | link target =>
        simp only [Option.map_some, FileNode.shape, henter]
        split <;> rfl
      | directory => rfl
      | file text => rfl

theorem follow_shape (links : Nat) (here : Location) (steps : List String) :
    t.shape.follow through links here steps
      = (t.follow through links here steps).map Place.shape := by
  induction links generalizing here steps with
  | zero => exact walk_shape (fun _ _ _ => by rfl) here steps
  | succ links ih => exact walk_shape (fun target here rest => ih _ _) here steps

theorem place_shape : t.shape.place through p = (t.place through p).map Place.shape := by
  unfold place
  split
  · rfl
  split
  · rfl
  split
  · rfl
  exact follow_shape _ _ _

theorem find_shape : t.shape.find p
    = (t.find p).map fun found => (found.1, found.2.shape) := by
  unfold find
  rw [place_shape]
  rcases t.place true p with fault | ⟨l, _ | node⟩ <;> rfl

@[simp] theorem isFile_shape : t.shape.isFile p = t.isFile p := by
  unfold isFile
  rw [find_shape]
  rcases t.find p with fault | ⟨l, text | _ | target⟩ <;> rfl

@[simp] theorem isDirectory_shape : t.shape.isDirectory p = t.isDirectory p := by
  unfold isDirectory
  rw [find_shape]
  rcases t.find p with fault | ⟨l, text | _ | target⟩ <;> rfl

@[simp] theorem canonical_shape : t.shape.canonical p = t.canonical p := by
  unfold canonical
  rw [find_shape]
  cases t.find p <;> rfl

end FileTree

@[simp] theorem Search.first_shape {t : FileTree} (paths : List Path) :
    first t.shape paths = first t paths := by
  induction paths with
  | nil => rfl
  | cons p paths ih => rw [first, first, FileTree.isFile_shape, ih]

namespace Resolver

/-- The description of a package. -/
def description (package : Path) : Path := package.push ⟨"package.json"⟩

/-- The two resolvers answer alike: their trees differ only in texts that are no descriptions of
packages, and they read descriptions in one way. -/
structure Alike (r r' : Resolver) : Prop where
  extensions : r.extensions = r'.extensions
  packageMain : r.packageMain = r'.packageMain
  shape : r.tree.shape = r'.tree.shape
  descriptions : ∀ package, r.tree.readText (description package)
    = r'.tree.readText (description package)

namespace Alike

variable {r r' : Resolver} (h : r.Alike r')
include h

theorem isFile (p : Path) : r.tree.isFile p = r'.tree.isFile p := by
  rw [← FileTree.isFile_shape, h.shape, FileTree.isFile_shape]

theorem isDirectory (p : Path) : r.tree.isDirectory p = r'.tree.isDirectory p := by
  rw [← FileTree.isDirectory_shape, h.shape, FileTree.isDirectory_shape]

theorem canonical (p : Path) : r.canonical p = r'.canonical p := by
  unfold Resolver.canonical
  rw [← FileTree.canonical_shape, h.shape, FileTree.canonical_shape]

theorem probe (p : Path) : r.probe p = r'.probe p := by
  unfold Resolver.probe candidates extended
  rw [h.extensions, h.isDirectory, ← Search.first_shape, h.shape, Search.first_shape]

theorem main? (package : Path) : r.main? package = r'.main? package := by
  have hread := h.descriptions package
  unfold description at hread
  unfold Resolver.main?
  simp only [h.isFile, hread, h.packageMain]

theorem searchPackage (package : Path) (inside : Option String) :
    r.searchPackage package inside = r'.searchPackage package inside := by
  cases inside with
  | none => simp only [Resolver.searchPackage, h.probe, h.main?]
  | some inside => simp only [Resolver.searchPackage, h.probe]

theorem searchDirectories (name : String) (inside : Option String) (directories : List Path) :
    r.searchDirectories name inside directories
      = r'.searchDirectories name inside directories := by
  induction directories with
  | nil => rfl
  | cons directory others ih =>
    simp only [Resolver.searchDirectories, h.isDirectory, h.searchPackage, ih]

theorem resolve (specifier : String) (importer : Path) :
    r.resolve specifier importer = r'.resolve specifier importer := by
  simp only [Resolver.resolve, search, conclude, h.probe, h.searchDirectories, h.canonical]

theorem resolveEntry (context entry : Path) :
    r.resolveEntry context entry = r'.resolveEntry context entry := by
  simp only [Resolver.resolveEntry, conclude, h.probe, h.canonical]

end Alike
end Resolver
end ModuleBundler
