import ModuleBundler.Path.Logical
import ModuleBundler.Transform.Rule

/-! What to bundle, and where to write the bundles. -/
namespace ModuleBundler

/-- Where the walks through the modules start. -/
inductive Entry where
  | single (path : Path)
  /-- Each entry point has a name; they are taken in this order. -/
  | named (points : List (String × Path))
  deriving DecidableEq, Repr

namespace Entry

/-- The name of an entry point that was given none. -/
def defaultName : String := "main"

/-- The entry points with their names. -/
def points : Entry → List (String × Path)
  | single path => [(defaultName, path)]
  | named points => points

/-- The first name that came before. -/
def repeated? (before : List String) : List String → Option String
  | [] => none
  | name :: names => if name ∈ before then some name else repeated? (name :: before) names

/-- There are entry points, and their names differ. -/
def validate (e : Entry) : Except ConfigError Unit :=
  if e.points.isEmpty then .error .missingEntry
  else
    match repeated? [] (e.points.map (·.1)) with
    | some name => .error (.duplicateEntry name)
    | none => .ok ()

/-- An entry point written as a name and a path with an equals sign between them. -/
def parsePoint (argument : String) : Except ConfigError (String × Path) :=
  let cs := argument.toList
  let name := cs.takeWhile (· ≠ '=')
  match cs.drop name.length with
  | _ :: c :: path =>
    if name.isEmpty then .error (.invalidEntry argument)
    else .ok (String.ofList name, ⟨String.ofList (c :: path)⟩)
  | _ => .error (.invalidEntry argument)

theorem repeated?_eq_none_iff {before names : List String} :
    repeated? before names = none ↔ names.Nodup ∧ ∀ name ∈ names, name ∉ before := by
  induction names generalizing before with
  | nil => simp [repeated?]
  | cons name names ih =>
    unfold repeated?
    split
    · next h => simp [h]
    · next h =>
      rw [ih]
      simp only [List.nodup_cons, List.mem_cons, not_or]
      constructor
      · rintro ⟨hn, hb⟩
        exact ⟨⟨fun hm => (hb _ hm).1 rfl, hn⟩, fun m hm =>
          hm.elim (fun e => e ▸ h) fun hm => (hb _ hm).2⟩
      · rintro ⟨⟨hm, hn⟩, hb⟩
        exact ⟨hn, fun m hmm => ⟨fun e => hm (e ▸ hmm), hb _ (.inr hmm)⟩⟩

theorem validate_eq_ok_iff {e : Entry} :
    e.validate = .ok () ↔ e.points ≠ [] ∧ (e.points.map (·.1)).Nodup := by
  unfold validate
  split
  · next h => simp_all
  · next h =>
    split
    · next name hr =>
      have : repeated? [] (e.points.map (·.1)) ≠ none := by simp [hr]
      rw [ne_eq, repeated?_eq_none_iff] at this
      simp_all
    · next hr =>
      have := repeated?_eq_none_iff.mp hr
      simp_all

end Entry

/-- All that a pass depends on besides the files. -/
structure Options where
  /-- What the description of a package says about its main file, or why it is none. -/
  packageMain : String → Except String (Option String)
  /-- The root of the project: entry points and names of modules are seen from there. -/
  context : Path
  entry : Entry
  /-- Where to write; seen from the context if it is relative. -/
  outputPath : Option Path := none
  filename : String := "[name].js"
  /-- What is tried behind a path that leads to no file. -/
  extensions : List String := [".js"]
  rules : List Rule := []

namespace Options

/-- The directory to write in. -/
def outputDirectory (o : Options) : Path :=
  match o.outputPath with
  | some path => o.context.absolutize path
  | none => o.context.push ⟨"dist"⟩

/-- The name of the file for an entry point. -/
def filenameFor (o : Options) (name : String) : String :=
  Text.replaceAll "[name]" name o.filename

example : filenameFor ⟨fun _ => .ok none, ⟨"/"⟩, .named [], none, "[name]/b.js", [], []⟩ "a"
    = "a/b.js" := by decide +kernel

end Options
end ModuleBundler
