import ModuleBundler.Tree.Basic

/-! The names that declarations bind, and the expressions that stand for a fixed text. -/
namespace ModuleBundler

mutual

/-- The names that a pattern binds, in the order of the text. -/
def Pattern.boundNames : Pattern → List String
  | ⟨_, form⟩ => form.boundNames

/-- The names that a pattern binds, in the order of the text. -/
def PatternForm.boundNames : PatternForm → List String
  | .ident ident => [ident.name]
  | .array elements rest => elementNames elements ++ restNames rest
  | .object properties rest => propertyNames properties ++ restNames rest
  | .withDefault pattern _ => pattern.boundNames
  | .target _ => []

/-- The names that an array pattern binds before its rest. -/
def elementNames : List (Option Pattern) → List String
  | [] => []
  | element :: elements => restNames element ++ elementNames elements

/-- The names that a part of a pattern binds, if it is there. -/
def restNames : Option Pattern → List String
  | none => []
  | some pattern => pattern.boundNames

/-- The names that an object pattern binds before its rest. -/
def propertyNames : List PatternProperty → List String
  | [] => []
  | property :: properties => property.boundNames ++ propertyNames properties

/-- The names that a property of a pattern binds. -/
def PatternProperty.boundNames : PatternProperty → List String
  | ⟨_, value, _⟩ => value.boundNames

end

/-- The names that variable declarations bind, in the order of the text. -/
def boundNames (bindings : List Binding) : List String :=
  bindings.flatMap fun b => b.pattern.boundNames

/-- The names that a declaration adds to the scope around it. -/
def Decl.boundNames : Decl → List String
  | .function fn => (fn.name.map Ident.name).toList
  | .class cls => (cls.name.map Ident.name).toList
  | .vars _ bindings => ModuleBundler.boundNames bindings

/-- The text of a string, or of a template without substitutions. -/
def Expr.staticString? (e : Expr) : Option String :=
  match e.form with
  | .string value => some value
  | .template texts [] => texts.head?
  | _ => none

/-- The name that an expression consists of. -/
def Expr.identName? (e : Expr) : Option String :=
  match e.form with
  | .ident name => some name
  | _ => none

@[simp] theorem boundNames_nil : boundNames [] = [] := rfl

@[simp] theorem boundNames_cons (b : Binding) (bs : List Binding) :
    boundNames (b :: bs) = b.pattern.boundNames ++ boundNames bs := rfl

end ModuleBundler
