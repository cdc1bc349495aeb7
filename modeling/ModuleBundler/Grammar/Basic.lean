import ModuleBundler.Grammar.Cursor
import ModuleBundler.Token.Number

/-! The readers of the parts of a script, each of which may need all the others, and the readers
of keys and names that need only an expression. -/
namespace ModuleBundler

/-- The readers of the parts in which a part may contain parts of its own. -/
structure Grammar where
  /-- An expression whose operators bind at least so tightly. -/
  expression : Nat → Parser Expr
  /-- An expression without operators around it. -/
  primary : Parser Expr
  pattern : Parser Pattern
  statement : Parser Stmt

namespace Grammar
open ModuleBundler.Parser

/-- The grammar that reads nothing. -/
def empty : Grammar :=
  ⟨fun _ => fail .noGrammar, fail .noGrammar, fail .noGrammar, fail .noGrammar⟩

variable (g : Grammar)

/-- An expression without commas outside of brackets. -/
def assignment : Parser Expr := g.expression 1

/-- Expressions with commas between them are one expression. -/
def commaSequence (item : Parser Expr) : Parser Expr := do
  let first ← item
  if (← get).seesMark .comma then
    let others ← many (·.seesMark .comma) (do consumeMark .comma; item)
    return ⟨← spanFrom first.span, .sequence (first :: others)⟩
  else
    return first

/-- An expression inside brackets, where `in` is an operator. -/
def enclosed : Parser Expr := withIn (commaSequence g.assignment)

/-- The key of a property, method or field. -/
def propertyKey : Parser PropertyKey := do
  match (← get).current.kind with
  | .stringLiteral | .bigIntLiteral => return .string (← advance).value
  | .numberLiteral => return .number (Number.value (← advance).value)
  | .privateName => return .privateName (← propertyName)
  | .punct .lBracket =>
    consumeMark .lBracket
    let value ← withIn g.assignment
    consumeMark .rBracket
    return .computed value
  | _ => return .name (← propertyName)

end Grammar

/-- The next token but one lets a word such as `get` be a modifier and not itself a name. -/
def Cursor.modifierApplies (c : Cursor) : Bool :=
  match c.secondKind? with
  | none => false
  | some kind =>
    !(kind matches .punct .lParen | .punct .eq | .punct .semicolon | .punct .rBrace
      | .punct .comma | .punct .colon | .eof)

/-- The next tokens are `async` and `function` on one line. -/
def Cursor.seesAsyncFunction (c : Cursor) : Bool :=
  c.seesWord "async" && c.secondKind? == some (.keyword .functionKw) && !c.newlineBeforeSecond

/-- What stands before the key of a method. -/
structure Modifiers where
  kind : MethodKind
  isAsync : Bool
  isGenerator : Bool
  deriving DecidableEq, Repr

/-- Nothing stands before the key. -/
def Modifiers.isPlain (m : Modifiers) : Bool :=
  m.kind == .method && !m.isAsync && !m.isGenerator

/-- Reads a word that is a modifier here. -/
def Parser.modifier (word : String) : Parser Bool := do
  if (← get).seesWord word && (← get).modifierApplies then
    let _ ← advance
    return true
  else
    return false

/-- Reads the word that makes a method asynchronous, which stands on the line of its key. -/
def Parser.asyncModifier : Parser Bool := do
  if (← get).newlineBeforeSecond then return false else modifier "async"

/-- Reads what stands before the key of a method. -/
def Parser.modifiers : Parser Modifiers := do
  let isAsync ← asyncModifier
  let isGenerator ← eatMark .star
  if isAsync || isGenerator then return ⟨.method, isAsync, isGenerator⟩
  if ← modifier "get" then return ⟨.getter, false, false⟩
  if ← modifier "set" then return ⟨.setter, false, false⟩
  return ⟨.method, false, false⟩

end ModuleBundler
