import ModuleBundler.Grammar.Pattern

/-! Reading blocks, functions and classes. -/
namespace ModuleBundler.Grammar
open ModuleBundler.Parser

variable (g : Grammar)

/-- Statements in braces. -/
def block : Parser Block := do
  let start ← here
  consumeMark .lBrace
  let stmts ← manyUntil .rBrace g.statement
  consumeMark .rBrace
  return ⟨← spanFrom start, stmts⟩

/-- The parameters and the body of a function, where `in` is an operator. -/
def functionTail (name : Option Ident) (isAsync isGenerator : Bool) : Parser FunctionDef := do
  let params ← withIn g.params
  let body ← withIn g.block
  return ⟨name, params, body, isAsync, isGenerator⟩

/-- A name that only some places allow to be left out. -/
def declaredName (nameOptional : Bool) (missing : Fault) : Parser (Option Ident) := do
  if (← get).sees .identifier then return some (← ident)
  else if nameOptional then return none
  else fail missing

/-- A function with its keyword. -/
def function (nameOptional : Bool) : Parser FunctionDef := do
  let isAsync ← eatWord "async"
  consumeKeyword .functionKw
  let isGenerator ← eatMark .star
  let name ← declaredName nameOptional .expectedFunctionName
  g.functionTail name isAsync isGenerator

/-- A method that names the constructor of its class. -/
def namesConstructor : PropertyKey → Bool
  | .name ident => ident.name == "constructor"
  | .string value => value == "constructor"
  | _ => false

/-- A method or field of a class, after the word `static`, if it has one. -/
def methodOrField (isStatic : Bool) : Parser ClassMember := do
  let m ← modifiers
  let key ← g.propertyKey
  if (← get).seesMark .lParen then
    let fn ← g.functionTail none m.isAsync m.isGenerator
    if !isStatic && m.isPlain && namesConstructor key then
      return .constructorDef fn.params fn.body
    else
      return .method key m.kind fn isStatic
  else if !m.isPlain then
    fail .expectedMethodParams
  else
    let value ← after (.punct .eq) (withIn g.assignment)
    semicolon
    return .field key value isStatic

/-- A member of a class. -/
def classMember : Parser ClassMember := do
  let isStatic ← modifier "static"
  if isStatic && (← get).seesMark .lBrace then return .staticBlock (← withIn g.block)
  else g.methodOrField isStatic

/-- A member of a class, or a semicolon, which stands for none. -/
def classMember? : Parser (Option ClassMember) := do
  if ← eatMark .semicolon then return none else return some (← g.classMember)

/-- A class with its keyword; the class that it extends has no operators around it. -/
def classDef (nameOptional : Bool) : Parser ClassDef := do
  consumeKeyword .classKw
  let name ← declaredName nameOptional .expectedClassName
  let base ← after (.keyword .extendsKw) (g.expression 17)
  consumeMark .lBrace
  let members ← manyUntil .rBrace g.classMember?
  consumeMark .rBrace
  return ⟨name, base, members.filterMap id⟩

end ModuleBundler.Grammar
