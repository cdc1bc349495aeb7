import ModuleBundler.Path.Basic

/-! A tree of files, and where a path leads in it. -/
namespace ModuleBundler

/-- Why something cannot be done with a file. -/
inductive FileFault where
  | notFound
  | notDirectory
  | isDirectory
  | alreadyExists
  | tooManyLinks
  | nameTooLong
  | nulInName
  | notText
  deriving DecidableEq, Repr

/-- The fault in the words of the system. -/
def FileFault.describe : FileFault → String
  | notFound => "No such file or directory (os error 2)"
  | notDirectory => "Not a directory (os error 20)"
  | isDirectory => "Is a directory (os error 21)"
  | alreadyExists => "File exists (os error 17)"
  | tooManyLinks => "Too many levels of symbolic links (os error 40)"
  | nameTooLong => "File name too long (os error 36)"
  | nulInName => "file name contained an unexpected NUL byte"
  | notText => "stream did not contain valid UTF-8"

/-- Where something is in a tree: the names on the way from the root. -/
abbrev Location := List String

/-- What is at a location. -/
inductive FileNode where
  | directory
  /-- A file with its text, if its bytes are one. -/
  | file (text : Option String)
  | link (target : Path)
  deriving DecidableEq, Repr

/-- Files, directories and links below a root, and the directory where relative paths start. -/
structure FileTree where
  nodes : List (Location × FileNode)
  home : Location
  deriving DecidableEq, Repr

/-- A location that a path leads to; nothing need be there, but its directory is. -/
structure Place where
  location : Location
  node : Option FileNode
  deriving DecidableEq, Repr

namespace Path

/-- The stretches between slashes, each of which says where to go next. -/
def steps (p : Path) : List String := (splitSlash p.text.toList).map String.ofList

/-- The path of a location. -/
def ofLocation (names : Location) : Path := ⟨"/" ++ String.intercalate "/" names⟩

end Path

namespace FileTree

/-- A tree with nothing but its root. -/
def empty : FileTree := ⟨[], []⟩

/-- What is at a location; the root is a directory. -/
def node? (t : FileTree) : Location → Option FileNode
  | [] => some .directory
  | names => t.nodes.lookup names

/-- Where steps lead from a location, if it is known where a link leads that is met at a location
with steps behind it. A link that is the last step is gone through only if `through` says so. -/
def walk (t : FileTree) (through : Bool)
    (enter : Path → Location → List String → Except FileFault Place) (here : Location) :
    List String → Except FileFault Place
  | [] => .ok ⟨here, t.node? here⟩
  | step :: rest =>
    if t.node? here ≠ some .directory then .error .notDirectory
    else if step = "" ∨ step = "." then t.walk through enter here rest
    else if step = ".." then t.walk through enter here.dropLast rest
    else if 255 < step.utf8ByteSize then .error .nameTooLong
    else
      let there := here ++ [step]
      match t.node? there with
      | none => if rest = [] then .ok ⟨there, none⟩ else .error .notFound
      | some (.link target) =>
        if rest = [] ∧ through = false then .ok ⟨there, some (.link target)⟩
        else enter target here rest
      | some _ => t.walk through enter there rest

/-- Where steps lead from a location, going through at most so many links. -/
def follow (t : FileTree) (through : Bool) :
    (links : Nat) → Location → List String → Except FileFault Place
  | 0 => t.walk through fun _ _ _ => .error .tooManyLinks
  | links + 1 => t.walk through fun target here rest =>
    t.follow through links (if target.isAbsolute then [] else here) (target.steps ++ rest)

/-- How many links a path may go through. -/
def linkLimit : Nat := 40

/-- Where a path leads. -/
def place (t : FileTree) (through : Bool) (p : Path) : Except FileFault Place :=
  if p.text.toList.contains '\x00' then .error .nulInName
  else if p.text.isEmpty then .error .notFound
  else if 4096 ≤ p.text.utf8ByteSize then .error .nameTooLong
  else t.follow through linkLimit (if p.isAbsolute then [] else t.home) p.steps

/-- What a path leads to, through all links. -/
def find (t : FileTree) (p : Path) : Except FileFault (Location × FileNode) :=
  match t.place true p with
  | .ok ⟨location, some node⟩ => .ok (location, node)
  | .ok ⟨_, none⟩ => .error .notFound
  | .error fault => .error fault

/-- Whether a path leads to a file. -/
def isFile (t : FileTree) (p : Path) : Bool :=
  match t.find p with
  | .ok (_, .file _) => true
  | _ => false

/-- Whether a path leads to a directory. -/
def isDirectory (t : FileTree) (p : Path) : Bool :=
  match t.find p with
  | .ok (_, .directory) => true
  | _ => false

/-- The path without links and detours to where a path leads. -/
def canonical (t : FileTree) (p : Path) : Except FileFault Path :=
  (fun found => .ofLocation found.1) <$> t.find p

/-- The text of the file that a path leads to. -/
def readText (t : FileTree) (p : Path) : Except FileFault String :=
  match t.find p with
  | .ok (_, .file (some text)) => .ok text
  | .ok (_, .file none) => .error .notText
  | .ok _ => .error .isDirectory
  | .error fault => .error fault

@[simp] theorem node?_nil (t : FileTree) : t.node? [] = some .directory := by simp [node?]

@[simp] theorem follow_nil (t : FileTree) (through : Bool) (links : Nat) (here : Location) :
    t.follow through links here [] = .ok ⟨here, t.node? here⟩ := by
  cases links <;> simp [follow, walk]

/-- What can be read is a file. -/
theorem isFile_of_readText {t : FileTree} {p : Path} {text : String}
    (h : t.readText p = .ok text) : t.isFile p = true := by
  unfold readText at h
  split at h <;> simp_all [isFile]

end FileTree
end ModuleBundler
