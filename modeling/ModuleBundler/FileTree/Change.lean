import ModuleBundler.FileTree.Basic

/-! Changes to a tree of files. -/
namespace ModuleBundler

namespace FileTree

/-- Puts something at a location, in place of what was there. -/
def put (t : FileTree) (location : Location) (node : FileNode) : FileTree :=
  { t with nodes := (location, node) :: t.nodes.filter (·.1 ≠ location) }

/-- Writes a file, where a link may lead to it; its directory must be there. -/
def writeFile (t : FileTree) (p : Path) (text : Option String) : Except FileFault FileTree :=
  if p.text.endsWith "/" then .error .isDirectory
  else
    match t.place true p with
    | .ok ⟨_, some .directory⟩ => .error .isDirectory
    | .ok ⟨location, _⟩ => .ok (t.put location (.file text))
    | .error fault => .error fault

/-- Puts something where nothing is yet. -/
def create (t : FileTree) (p : Path) (node : FileNode) : Except FileFault FileTree :=
  match t.place false p with
  | .ok ⟨location, none⟩ => .ok (t.put location node)
  | .ok _ => .error .alreadyExists
  | .error fault => .error fault

/-- Creates directories, each of which is in the next one; those above one are created only if
it cannot be created without them. The tree keeps what was created before a failure. -/
def createAll (t : FileTree) : List Path → FileTree × Option FileFault
  | [] => (t, some .notFound)
  | p :: above =>
    if p.text.isEmpty then (t, none)
    else
      match t.create p .directory with
      | .ok t => (t, none)
      | .error .notFound =>
        match t.createAll above with
        | (t, some fault) => (t, some fault)
        | (t, none) =>
          match t.create p .directory with
          | .ok t => (t, none)
          | .error fault => (t, if t.isDirectory p then none else some fault)
      | .error fault => (t, if t.isDirectory p then none else some fault)

/-- Creates a directory and those above it, unless they are there. -/
def createDirectories (t : FileTree) (p : Path) : FileTree × Option FileFault :=
  t.createAll p.ancestors

/-- Takes away what a path leads to, with everything below it; a link is not gone through. -/
def remove (t : FileTree) (p : Path) : FileTree :=
  match t.place false p with
  | .ok ⟨location, some _⟩ =>
    { t with nodes := t.nodes.filter fun node => !location.isPrefixOf node.1 }
  | _ => t

/-- The locations of the files below a location, seen from there. -/
def filesBelow (t : FileTree) (root : Location) : List Location :=
  t.nodes.filterMap fun (location, node) =>
    match node with
    | .directory => none
    | _ => if root.isPrefixOf location then some (location.drop root.length) else none

@[simp] theorem node?_put (t : FileTree) {location : Location} (h : location ≠ [])
    (node : FileNode) : (t.put location node).node? location = some node := by
  cases location with
  | nil => contradiction
  | cons name names => simp [put, node?]

/-- Taking away what is at one location does not change what is at another. -/
private theorem lookup_filter_ne (nodes : List (Location × FileNode)) {l m : Location}
    (h : m ≠ l) : (nodes.filter (·.1 ≠ l)).lookup m = nodes.lookup m := by
  induction nodes with
  | nil => rfl
  | cons x nodes ih =>
    obtain ⟨k, node⟩ := x
    by_cases hk : k = l
    · subst hk
      have hm : (m == k) = false := beq_eq_false_iff_ne.mpr h
      simpa [List.lookup_cons, hm] using ih
    · have hk : decide (k ≠ l) = true := by simpa using hk
      rw [List.filter_cons, hk, if_pos rfl, List.lookup_cons, List.lookup_cons, ih]

theorem node?_put_of_ne (t : FileTree) {l m : Location} (h : m ≠ l) (node : FileNode) :
    (t.put l node).node? m = t.node? m := by
  cases m with
  | nil => simp
  | cons name names =>
    have hl : (name :: names == l) = false := beq_eq_false_iff_ne.mpr h
    simp only [put, node?, List.lookup_cons, hl]
    exact lookup_filter_ne t.nodes h

end FileTree

/-- Something that happens to the files, or a report of it. -/
inductive Change where
  /-- A file is written; the directories above it are created. -/
  | write (p : Path) (text : Option String)
  | makeDirectory (p : Path)
  | link (p target : Path)
  | remove (p : Path)
  /-- The watcher hears that a file changed. -/
  | touch (p : Path)
  deriving DecidableEq, Repr

namespace Change

/-- The tree after something happened; what cannot be done does not happen. -/
def applyTo (t : FileTree) : Change → FileTree
  | write p text =>
    let t := (p.parent?.map fun above => (t.createDirectories above).1).getD t
    (t.writeFile p text).toOption.getD t
  | makeDirectory p => (t.createDirectories p).1
  | link p target =>
    let t := (p.parent?.map fun above => (t.createDirectories above).1).getD t
    (t.create p (.link target)).toOption.getD t
  | remove p => t.remove p
  | touch _ => t

end Change

end ModuleBundler
