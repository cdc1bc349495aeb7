/-! Paths of files: their spelling, and the components that say which path it is. -/
namespace ModuleBundler

/-- A part of a path. -/
inductive Component where
  | root
  | current
  | parent
  | normal (name : String)
  deriving DecidableEq, Repr

/-- How a component is written. -/
def Component.text : Component → String
  | root => "/"
  | current => "."
  | parent => ".."
  | normal name => name

/-- The place of a kind of component in the order of paths. -/
def Component.rank : Component → Nat
  | root => 0
  | current => 1
  | parent => 2
  | normal _ => 3

/-- Components are ordered by kind, and names among themselves by their characters. -/
instance : Ord Component := ⟨compareLex (compareOn Component.rank) (compareOn Component.text)⟩

instance : Std.TransOrd Component :=
  inferInstanceAs (Std.TransCmp (compareLex (compareOn Component.rank) (compareOn Component.text)))

instance : Std.LawfulEqOrd Component where
  eq_of_compare {a b} h := by
    obtain ⟨hr, ht⟩ := Ordering.then_eq_eq.mp h
    have hr : a.rank = b.rank := Std.LawfulEqOrd.eq_of_compare hr
    have ht : a.text = b.text := Std.LawfulEqOrd.eq_of_compare ht
    cases a <;> cases b <;> simp_all [Component.rank, Component.text]

/-- A path as it is spelled. -/
structure Path where
  text : String
  deriving DecidableEq, Repr, Inhabited

namespace Path

/-- The stretches between slashes. -/
def splitSlash : List Char → List (List Char)
  | [] => [[]]
  | c :: cs =>
    match splitSlash cs with
    | [] => [[c]]
    | piece :: pieces => if c = '/' then [] :: piece :: pieces else (c :: piece) :: pieces

/-- Stretches with slashes between them. -/
def joinSlash : List (List Char) → List Char
  | [] => []
  | [piece] => piece
  | piece :: pieces => piece ++ '/' :: joinSlash pieces

/-- The component that a stretch between slashes stands for: an empty one and a point alone
stand for none. -/
def component? (piece : List Char) : Option Component :=
  if piece = [] ∨ piece = ['.'] then none
  else if piece = ['.', '.'] then some .parent
  else some (.normal (String.ofList piece))

/-- A path that starts with a slash does not depend on where it is used. -/
def isAbsolute (p : Path) : Bool := p.text.toList.head? = some '/'

/-- What a path starts with before the names: the root, a point, or nothing; and the rest. -/
def lead (p : Path) : Option Component × List Char :=
  match p.text.toList with
  | '/' :: cs => (some .root, cs)
  | ['.'] => (some .current, [])
  | '.' :: '/' :: cs => (some .current, '/' :: cs)
  | cs => (none, cs)

/-- The components of a path: repeated slashes, and points that are not the first component,
do not count. -/
def components (p : Path) : List Component :=
  p.lead.1.toList ++ (splitSlash p.lead.2).filterMap component?

/-- The path with another one behind it, which replaces it if it is absolute. -/
def push (p q : Path) : Path :=
  if q.isAbsolute then q
  else if p.text.isEmpty || p.text.endsWith "/" then ⟨p.text ++ q.text⟩
  else ⟨p.text ++ "/" ++ q.text⟩

/-- The path that components spell, one behind the other. -/
def ofComponents (cs : List Component) : Path := cs.foldl (fun p c => p.push ⟨c.text⟩) ⟨""⟩

/-- The pieces of a path without those at its end that do not count. -/
def trimEnd (pieces : List (List Char)) : List (List Char) :=
  (pieces.reverse.dropWhile fun piece => piece = [] || piece = ['.']).reverse

/-- The path without its last component, spelled as it was; the root and the empty path have
no parent. -/
def parent? (p : Path) : Option Path :=
  let (lead, rest) := p.lead
  let leadText := (lead.map Component.text).getD ""
  match trimEnd (splitSlash rest), lead with
  | [], some .current => some ⟨""⟩
  | [], _ => none
  | pieces, _ => some ⟨leadText ++ String.ofList (joinSlash (trimEnd pieces.dropLast))⟩

/-- A path and the directories above it, at most `depth` of them. -/
def ancestorsUpTo : Nat → Path → List Path
  | 0, p => [p]
  | depth + 1, p =>
    p :: match p.parent? with
      | none => []
      | some above => ancestorsUpTo depth above

/-- A path and all directories above it, the nearest first; each has a component less. -/
def ancestors (p : Path) : List Path := p.ancestorsUpTo p.components.length

/-- The name at the end of a path, without what follows its last point, unless the point comes
first. -/
def stem? (p : Path) : Option String :=
  match p.components.getLast? with
  | some (.normal name) =>
    let back := name.toList.reverse
    match back.dropWhile (· ≠ '.') with
    | [] | ['.'] => some name
    | _ :: rest => some (String.ofList rest.reverse)
  | _ => none

/-- Paths are the same if their components are. -/
instance : BEq Path := ⟨fun p q => p.components == q.components⟩

/-- Paths are ordered component by component. -/
def compare (p q : Path) : Ordering := Ord.compare p.components q.components

theorem joinSlash_splitSlash (cs : List Char) : joinSlash (splitSlash cs) = cs := by
  induction cs with
  | nil => rfl
  | cons c cs ih =>
    unfold splitSlash
    split
    · next h => rw [h] at ih; simp [joinSlash] at ih ⊢; exact ih
    · next piece pieces h =>
      rw [h] at ih
      split
      · next hc => subst hc; simp [joinSlash, ih]
      · cases pieces with
        | nil => simpa [joinSlash] using ih
        | cons q qs => simpa [joinSlash] using ih

theorem beq_iff (p q : Path) : (p == q) = true ↔ p.components = q.components := by
  change (p.components == q.components) = true ↔ _
  simp

instance : EquivBEq Path where
  rfl := by simp [beq_iff]
  symm h := by rw [beq_iff] at h ⊢; exact h.symm
  trans h k := by rw [beq_iff] at h k ⊢; exact h.trans k

instance : Std.TransCmp compare where
  eq_swap {_ _} := Std.OrientedOrd.eq_swap
  isLE_trans {_ _ _} := Std.TransOrd.isLE_trans

theorem compare_eq_eq_iff {p q : Path} : p.compare q = .eq ↔ (p == q) = true := by
  rw [beq_iff]
  exact Std.LawfulEqOrd.compare_eq_iff_eq

example : ancestors ⟨"/a/b//c"⟩ = [⟨"/a/b//c"⟩, ⟨"/a/b"⟩, ⟨"/a"⟩, ⟨"/"⟩] := by decide
example : stem? ⟨"src/a.test.js"⟩ = some "a.test" ∧ stem? ⟨".js"⟩ = some ".js" := by decide

end Path
end ModuleBundler
