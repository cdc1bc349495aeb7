import ModuleBundler.Grammar.Error
import ModuleBundler.Tree.Basic

/-! Reading an expression as the target of an assignment, as on the left of a loop over values. -/
namespace ModuleBundler

mutual

/-- The pattern that an expression stands for when values are stored in it. -/
def Expr.toPattern : Expr → Except ParseError Pattern
  | ⟨span, form⟩ => form.toPattern span

/-- The pattern that an expression with a given span stands for; parentheses around it go. -/
def ExprForm.toPattern (span : Span) : ExprForm → Except ParseError Pattern
  | .ident name => pure ⟨span, .ident ⟨name, span⟩⟩
  | .paren inner => inner.toPattern
  | .member false object property => pure ⟨span, .target ⟨span, .member false object property⟩⟩
  | .index false object index => pure ⟨span, .target ⟨span, .index false object index⟩⟩
  | .assignment .assign target value => do
    return ⟨span, .withDefault (← target.toPattern) value⟩
  | .array elements => do
    let (positions, rest) ← arrayTargets elements
    return ⟨span, .array positions rest⟩
  | .object members => do
    let (properties, rest) ← objectTargets span members
    return ⟨span, .object properties rest⟩
  | _ => throw ⟨.assignmentTarget, span⟩

/-- The positions of an array pattern and its rest; the last spread element is the rest. -/
def arrayTargets : List (Option Expr) → Except ParseError (List (Option Pattern) × Option Pattern)
  | [] => pure ([], none)
  | none :: elements => do
    let (positions, rest) ← arrayTargets elements
    return (none :: positions, rest)
  | some ⟨_, .spread inner⟩ :: elements => do
    let spread ← inner.toPattern
    let (positions, rest) ← arrayTargets elements
    return (positions, some (rest.getD spread))
  | some ⟨span, form⟩ :: elements => do
    let position ← form.toPattern span
    let (positions, rest) ← arrayTargets elements
    return (some position :: positions, rest)

/-- The properties of an object pattern and its rest; the last spread member is the rest. -/
def objectTargets (span : Span) :
    List ObjectMember → Except ParseError (List PatternProperty × Option Pattern)
  | [] => pure ([], none)
  | .property key value shorthand :: members => do
    let target ← value.toPattern
    let (properties, rest) ← objectTargets span members
    return (⟨key, target, shorthand⟩ :: properties, rest)
  | .spread value :: members => do
    let spread ← value.toPattern
    let (properties, rest) ← objectTargets span members
    return (properties, some (rest.getD spread))
  | .method .. :: _ => throw ⟨.destructuringTarget, span⟩

end

end ModuleBundler
