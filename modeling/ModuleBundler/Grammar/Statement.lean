import ModuleBundler.Grammar.Expression
import ModuleBundler.Tree.Target

/-! Reading declarations and statements. -/
namespace ModuleBundler.Grammar
open ModuleBundler.Parser

variable (g : Grammar)

/-- A declared variable and its value, if it has one. -/
def binding : Parser Binding := do
  let pattern ← g.pattern
  let value ← after (.punct .eq) g.assignment
  return ⟨pattern, value⟩

/-- Declared variables, after the word that declares them. -/
def bindings : Parser (VarKind × List Binding) := do
  match VarKind.ofToken? (← get).current.kind with
  | none => fail .expectedVarKind
  | some kind =>
    let _ ← advance
    let first ← g.binding
    let others ← many (·.seesMark .comma) (do consumeMark .comma; g.binding)
    return (kind, first :: others)

/-- A declaration of variables. -/
def varDecl : Parser Decl := do
  let (kind, bindings) ← g.bindings
  semicolon
  return .vars kind bindings

/-- A declaration that starts here, if one does. -/
def declaration? (nameOptional : Bool) : Parser (Option Decl) := do
  let c ← get
  if c.seesKeyword .functionKw || c.seesAsyncFunction then
    return some (.function (← g.function nameOptional))
  else if c.seesKeyword .classKw then
    return some (.class (← g.classDef nameOptional))
  else if (VarKind.ofToken? c.current.kind).isSome then
    return some (← g.varDecl)
  else
    return none

/-- An expression in parentheses that decides or selects something. -/
def condition : Parser Expr := do
  consumeMark .lParen
  let test ← g.enclosed
  consumeMark .rParen
  return test

/-- A conditional statement. -/
def ifStatement : Parser StmtForm := do
  consumeKeyword .ifKw
  let test ← g.condition
  let yes ← g.statement
  let no ← after (.keyword .elseKw) g.statement
  return .ifStmt test yes no

/-- What a loop starts with. -/
def forStart : Parser ForStart := do
  let c ← get
  if c.seesMark .semicolon then return .nothing
  else if (VarKind.ofToken? c.current.kind).isSome then
    let (kind, bindings) ← g.bindings
    return .vars kind bindings
  else
    return .expr (← commaSequence g.assignment)

/-- What a loop starts with, as the target of a loop over values. -/
def forTarget : ForStart → Parser ForTarget
  | .nothing => fail .expectedLoopVariable
  | .vars kind bindings => return .vars kind bindings
  | .expr expr =>
    match expr.toPattern with
    | .ok pattern => return .pattern pattern
    | .error e => throw e

/-- An expression before a mark, which may stand alone. -/
def exprBefore (mark : Punctuator) : Parser (Option Expr) := do
  if (← get).seesMark mark then return none else some <$> g.enclosed

/-- A loop with a condition, after what it starts with. -/
def forTail (start : ForStart) : Parser StmtForm := do
  consumeMark .semicolon
  let test ← g.exprBefore .semicolon
  consumeMark .semicolon
  let update ← g.exprBefore .rParen
  consumeMark .rParen
  return .forStmt start test update (← g.statement)

/-- A loop of any kind. -/
def forStatement : Parser StmtForm := do
  consumeKeyword .forKw
  let isAwait ← eatKeyword .awaitKw
  consumeMark .lParen
  let start ← withoutIn g.forStart
  let c ← get
  if c.seesKeyword .inKw then
    let target ← forTarget start
    let _ ← advance
    let object ← g.enclosed
    consumeMark .rParen
    return .forIn target object (← g.statement)
  else if c.seesWord "of" then
    let target ← forTarget start
    let _ ← advance
    let values ← withIn g.assignment
    consumeMark .rParen
    return .forOf isAwait target values (← g.statement)
  else
    g.forTail start

/-- A loop with its condition first. -/
def whileStatement : Parser StmtForm := do
  consumeKeyword .whileKw
  let test ← g.condition
  return .whileStmt test (← g.statement)

/-- A loop with its condition last. -/
def doWhileStatement : Parser StmtForm := do
  consumeKeyword .doKw
  let body ← g.statement
  consumeKeyword .whileKw
  let test ← g.condition
  semicolon
  return .doWhile body test

/-- What a branch of a switch starts with. -/
def caseTest : Parser (Option Expr) := do
  if ← eatKeyword .caseKw then some <$> commaSequence g.assignment
  else if ← eatKeyword .defaultKw then return none
  else fail .expectedCase

/-- A branch of a switch. -/
def switchCase : Parser SwitchCase := do
  let test ← g.caseTest
  consumeMark .colon
  let body ← many (fun c =>
    !c.seesKeyword .caseKw && !c.seesKeyword .defaultKw && !c.seesMark .rBrace && !c.atEnd)
    g.statement
  return ⟨test, body⟩

/-- A statement that selects a branch. -/
def switchStatement : Parser StmtForm := do
  consumeKeyword .switchKw
  let subject ← g.condition
  consumeMark .lBrace
  let cases ← manyUntil .rBrace g.switchCase
  consumeMark .rBrace
  return .switchStmt subject cases

/-- The value may be left out at the end of the line or block. -/
def returnValue : Parser (Option Expr) := do
  let c ← get
  if c.seesMark .semicolon || c.seesMark .rBrace || c.atEnd || c.current.newlineBefore then
    return none
  else
    some <$> commaSequence g.assignment

/-- A statement that returns from a function. -/
def returnStatement : Parser StmtForm := do
  consumeKeyword .returnKw
  let value ← g.returnValue
  semicolon
  return .returnStmt value

/-- The name of a statement, on the same line. -/
def labelHere : Parser (Option Ident) := do
  let c ← get
  if c.sees .identifier && !c.current.newlineBefore then some <$> ident else return none

/-- The label that a jump goes to, after its word. -/
def jumpLabel (word : Keyword) : Parser (Option Ident) := do
  consumeKeyword word
  let label ← labelHere
  semicolon
  return label

/-- A statement that raises an exception. -/
def throwStatement : Parser StmtForm := do
  consumeKeyword .throwKw
  if (← get).current.newlineBefore then fail .newlineAfterThrow
  let value ← commaSequence g.assignment
  semicolon
  return .throwStmt value

/-- What an exception is stored in, with its parentheses. -/
def catchParam : Parser (Option Pattern) := do
  if ← eatMark .lParen then
    let pattern ← g.pattern
    consumeMark .rParen
    return some pattern
  else
    return none

/-- What is done with an exception. -/
def handler : Parser Handler := do
  if ← eatKeyword .catchKw then
    let param ← g.catchParam
    return .catch param (← g.block)
  else
    return .nothing

/-- A statement whose exceptions are handled, or that is cleaned up after. -/
def tryStatement : Parser StmtForm := do
  consumeKeyword .tryKw
  let block ← g.block
  let handler ← g.handler
  let finalizer ← after (.keyword .finallyKw) g.block
  match handler, finalizer with
  | .nothing, none => fail .tryWithoutHandler
  | _, _ => return .tryStmt block handler finalizer

/-- A label and its statement. -/
def labeledStatement : Parser StmtForm := do
  let label ← ident
  consumeMark .colon
  return .labeled label (← g.statement)

/-- A statement that consists of an expression. -/
def expressionStatement : Parser StmtForm := do
  let expr ← g.fullExpression
  semicolon
  return .expr expr

/-- The word `import` starts a declaration, unless a call or a property follows it. -/
def seesImport (c : Cursor) : Bool :=
  c.current.kind == .keyword .importKw
    && !(c.secondKind? matches some (.punct .lParen) | some (.punct .dot))

/-- A statement that is no declaration. -/
def simpleStatement : Parser StmtForm := do
  let c ← get
  match c.current.kind with
  | .punct .lBrace => return .block (← g.block).stmts
  | .keyword .ifKw => g.ifStatement
  | .keyword .forKw => g.forStatement
  | .keyword .whileKw => g.whileStatement
  | .keyword .doKw => g.doWhileStatement
  | .keyword .switchKw => g.switchStatement
  | .keyword .returnKw => g.returnStatement
  | .keyword .breakKw => .breakStmt <$> jumpLabel .breakKw
  | .keyword .continueKw => .continueStmt <$> jumpLabel .continueKw
  | .keyword .throwKw => g.throwStatement
  | .keyword .tryKw => g.tryStatement
  | .keyword .debuggerKw => do consumeKeyword .debuggerKw; semicolon; return .debugger
  | .punct .semicolon => do consumeMark .semicolon; return .empty
  | .keyword .exportKw => fail .nestedExport
  | .keyword .withKw => fail .withStatement
  | kind =>
    if seesImport c then fail .nestedImport
    else if kind == .identifier && c.secondKind? == some (.punct .colon) then g.labeledStatement
    else g.expressionStatement

/-- What a statement is made of. -/
def statementForm : Parser StmtForm := do
  match ← g.declaration? false with
  | some decl => return .decl decl
  | none => g.simpleStatement

/-- A statement. -/
def readStatement : Parser Stmt := do
  let start ← here
  let form ← g.statementForm
  return ⟨← spanFrom start, form⟩

end ModuleBundler.Grammar
