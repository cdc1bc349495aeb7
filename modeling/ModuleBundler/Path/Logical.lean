import ModuleBundler.Path.Basic

/-! Paths without detours, and the names of modules that come from where their files are. -/
namespace ModuleBundler.Path

/-- The path in its plainest spelling: its components with single slashes between them. -/
def unixText (p : Path) : String :=
  let names := p.components.filter (· ≠ .root)
  (if p.isAbsolute then "/" else "") ++ String.intercalate "/" (names.map Component.text)

/-- A component behind components without detours, the last one first: a point changes nothing
and two points take the name before them away, or are kept where there is none, but not below
the root. -/
def fold (above : List Component) (c : Component) : List Component :=
  match c, above with
  | .current, _ => above
  | .parent, .normal _ :: rest => rest
  | .parent, .root :: _ => above
  | c, _ => c :: above

/-- The path without points, and with two points only where nothing is above them. -/
def normalize (p : Path) : Path := ofComponents (p.components.foldl fold []).reverse

/-- How long two paths go along together. -/
def commonLength : List Component → List Component → Nat
  | c :: cs, d :: ds => if c = d then commonLength cs ds + 1 else 0
  | _, _ => 0

/-- The way from a directory to a path: up to where they part, and down again. -/
def relativeTo (base path : Path) : Path :=
  let up := base.components
  let down := path.components
  let common := commonLength up down
  ofComponents (List.replicate (up.length - common) .parent ++ down.drop common)

/-- The name of a module: where its file is, seen from the context. -/
def moduleId (context path : Path) : String := "./" ++ (relativeTo context path).unixText

/-- The path, taken from the base if it is relative, without detours. -/
def absolutize (base path : Path) : Path :=
  if path.isAbsolute then path.normalize else (base.push path).normalize

end ModuleBundler.Path
