import ModuleBundler.CommandLine.Run
import ModuleBundler.Json.Reader

/-! The program. It sees the directory in which it is called, all that is below that, and the
packages in the directories above. -/
namespace ModuleBundler.Program

/-- The text of a location. -/
def pathOf (location : Location) : String := (Path.ofLocation location).text

/-- The location of a path that starts at the root and has no detours. -/
def locationOf (path : String) : Location := (Path.mk path).steps.filter (· ≠ "")

/-- What is at a location and below it. -/
partial def readBelow (location : Location) : IO (List (Location × FileNode)) := do
  let real ← IO.FS.realPath (pathOf location)
  if real.toString ≠ pathOf location then return [(location, .link ⟨real.toString⟩)]
  match (← real.metadata).type with
  | .dir =>
    let entries ← real.readDir
    let inside ← entries.toList.mapM fun entry => do
      try readBelow (location ++ [entry.fileName])
      catch _ => return []
    return (location, .directory) :: inside.flatten
  | .file =>
    let bytes ← IO.FS.readBinFile real
    return [(location, .file (String.fromUTF8? bytes))]
  | _ => return []

/-- The packages in the directories above a location. -/
def readPackages (above : List Location) : IO (List (Location × FileNode)) := do
  let found ← above.mapM fun location => do
    let inside ←
      try readBelow (location ++ ["node_modules"])
      catch _ => pure []
    return (location, .directory) :: inside
  return found.flatten

/-- The files that the program sees. -/
def readTree : IO FileTree := do
  let home := locationOf (← IO.currentDir).toString
  let above := (List.range home.length).map (home.take ·)
  return ⟨(← readBelow home) ++ (← readPackages above), home⟩

/-- Writes what is new in a tree. -/
def writeTree (before after : FileTree) : IO Unit := do
  for (location, node) in after.nodes.reverse do
    if before.node? location ≠ some node then
      match node with
      | .directory => IO.FS.createDirAll (pathOf location)
      | .file (some text) => IO.FS.writeFile (pathOf location) text
      | _ => pure ()

end ModuleBundler.Program

open ModuleBundler in
/-- Does what the arguments say. -/
def main (arguments : List String) : IO UInt32 := do
  let tree ← Program.readTree
  let response := CommandLine.run JsonReader.strict tree arguments
  Program.writeTree tree response.tree
  IO.print response.output
  for complaint in response.complaints do
    IO.eprintln complaint
  return UInt32.ofNat response.code
