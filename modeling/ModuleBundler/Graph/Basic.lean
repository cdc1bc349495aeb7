import ModuleBundler.Path.Set

/-! The modules of a pass, what they depend on, and which entry points reach them. -/
namespace ModuleBundler

/-- A module that another one asks for: its name, and where its file is. -/
structure Dependency where
  id : String
  path : Path
  deriving DecidableEq, Repr

/-- A module whose specifiers have been replaced by the names of modules. -/
structure Module where
  id : String
  path : Path
  /-- The names of the entry points that reach it. -/
  names : List String
  /-- One for each place where a module is asked for, in the order of a walk through the text. -/
  dependencies : List Dependency
  source : String
  deriving DecidableEq, Repr

/-- The modules that have been built, in this order, and all files that were looked at. -/
structure Graph where
  modules : List Module
  /-- Where the modules of ids stand; what was put in last for an id counts. -/
  index : List (String × Nat)
  touched : PathSet

/-- The module has a name. -/
def Module.hasName (m : Module) (name : String) : Bool := m.names.contains name

/-- The module with another name. -/
def Module.addName (m : Module) (name : String) : Module := { m with names := m.names ++ [name] }

namespace Graph

/-- Nothing has been built. -/
def empty : Graph := ⟨[], [], .empty⟩

/-- Where the module of an id stands, as the index says. -/
def position? (g : Graph) (id : String) : Option Nat := g.index.lookup id

/-- The module of an id. -/
def find? (g : Graph) (id : String) : Option Module := (g.position? id).bind (g.modules[·]?)

/-- Whether a module has been built. -/
def has (g : Graph) (id : String) : Bool := (g.position? id).isSome

/-- The graph with one more module. -/
def append (g : Graph) (m : Module) : Graph :=
  { g with modules := g.modules ++ [m], index := (m.id, g.modules.length) :: g.index }

theorem has_append {g : Graph} {m : Module} {id : String} :
    (g.append m).has id = true ↔ id = m.id ∨ g.has id = true := by
  rw [has, position?, append, List.lookup_cons]
  by_cases h : id = m.id
  · simp [h]
  · rw [beq_false_of_ne h]
    simp only [h, false_or]
    rfl

/-- The graph after a file was looked at. -/
def touch (g : Graph) (p : Path) : Graph := { g with touched := g.touched.insert p }

/-- How often the name will be passed on, from the modules that lack it, along a dependency. -/
def lacking (ms : List Module) (name : String) : Nat :=
  ms.foldr (fun m n => (if m.hasName name then 0 else m.dependencies.length + 1) + n) 0

@[simp] theorem hasName_addName (m : Module) (name : String) :
    (m.addName name).hasName name = true := by simp [Module.hasName, Module.addName]

@[simp] theorem lacking_cons (m : Module) (ms : List Module) (name : String) :
    lacking (m :: ms) name =
      (if m.hasName name then 0 else m.dependencies.length + 1) + lacking ms name :=
  rfl

theorem lacking_modify {ms : List Module} {i : Nat} {name : String} {m : Module}
    (h : ms[i]? = some m) (hn : m.hasName name = false) :
    lacking (ms.modify i (·.addName name)) name + m.dependencies.length < lacking ms name := by
  induction ms generalizing i with
  | nil => simp at h
  | cons n ms ih =>
    cases i with
    | zero =>
      obtain rfl := Option.some.inj h
      simp [hn]
      omega
    | succ i =>
      have := ih (i := i) (by simpa using h)
      simp
      omega

/-- Where the modules stand that a module depends on, as far as they are in the index. -/
def places (index : List (String × Nat)) (m : Module) : List Nat :=
  m.dependencies.filterMap fun d => index.lookup d.id

theorem length_places_le (index : List (String × Nat)) (m : Module) :
    (places index m).length ≤ m.dependencies.length := List.length_filterMap_le ..

/-- Gives a name to the modules at places that are waiting for it and to all that they depend on,
as far as that is in the index; it does not go on from a module that has the name. -/
def spread (name : String) (index : List (String × Nat)) (ms : List Module) :
    List Nat → List Module
  | [] => ms
  | i :: waiting =>
    match _h : ms[i]? with
    | none => spread name index ms waiting
    | some m =>
      if _hn : m.hasName name then spread name index ms waiting
      else
        spread name index (ms.modify i (·.addName name))
          ((places index m).reverse ++ waiting)
  termination_by waiting => lacking ms name + waiting.length
  decreasing_by
    · simp
    · simp
    · have hlacking := lacking_modify _h (by simpa using _hn)
      have hlength := length_places_le index m
      simp
      omega

/-- Gives an entry point's name to a module and all that it depends on. -/
def spreadName (g : Graph) (id name : String) : Graph :=
  { g with modules := spread name g.index g.modules (g.position? id).toList }

@[simp] theorem spreadName_touched (g : Graph) (id name : String) :
    (g.spreadName id name).touched = g.touched := rfl

@[simp] theorem spreadName_index (g : Graph) (id name : String) :
    (g.spreadName id name).index = g.index := rfl

@[simp] theorem spread_nil (name : String) (index : List (String × Nat)) (ms : List Module) :
    spread name index ms [] = ms := by simp [spread]

end Graph
end ModuleBundler
