import ModuleBundler.Error
import ModuleBundler.Path.Logical
import ModuleBundler.Text.Replace

/-! Changes to the texts of files before they are read as modules, and which files they apply
to. -/
namespace ModuleBundler

/-- A named change of a text, which may fail with a reason. -/
structure Transform where
  name : String
  run : String → Except String String

/-- The transforms for the files whose paths pass a test. -/
structure Rule where
  /-- Tells from the text of a path, with slashes between its names. -/
  test : String → Bool
  transforms : List Transform

namespace Transform

/-- Puts a text behind. -/
def append (name text : String) : Transform := ⟨name, fun source => .ok (source ++ text)⟩

/-- Puts a text in front. -/
def prepend (name text : String) : Transform := ⟨name, fun source => .ok (text ++ source)⟩

/-- Replaces every occurrence of a text. -/
def replace (name old new : String) : Transform :=
  ⟨name, fun source => .ok (Text.replaceAll old new source)⟩

/-- Always fails. -/
def fail (name reason : String) : Transform := ⟨name, fun _ => .error reason⟩

end Transform

namespace Rule

/-- Whether a rule is for a file. -/
def applies (r : Rule) (p : Path) : Bool := r.test p.unixText

/-- The transforms for a file, in the order of the rules. -/
def transformsFor (rules : List Rule) (p : Path) : List Transform :=
  (rules.filter (·.applies p)).flatMap (·.transforms)

/-- Runs the transforms for a file over its text, the last one first. -/
def run (rules : List Rule) (p : Path) (source : String) : Except BundleError String :=
  (transformsFor rules p).foldrM (fun (t : Transform) source =>
    (t.run source).mapError (.transform t.name p)) source

@[simp] theorem run_nil (p : Path) (source : String) : run [] p source = .ok source := rfl

end Rule
end ModuleBundler
