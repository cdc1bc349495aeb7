import ModuleBundler.Tree.Basic

/-! The parts of a module in the order in which a walk comes upon them, each before its own
parts. -/
namespace ModuleBundler

/-- A part of a module that a walk stops at. -/
inductive Visit where
  | program (program : Program)
  | item (item : Item)
  | stmt (stmt : Stmt)
  | decl (decl : Decl)
  | expr (expr : Expr)
  | pattern (pattern : Pattern)
  | function (fn : FunctionDef)
  | class (cls : ClassDef)

mutual

/-- An expression and its parts. -/
def Expr.visits : Expr → List Visit
  | ⟨span, form⟩ => .expr ⟨span, form⟩ :: form.visits

/-- The parts of an expression. -/
def ExprForm.visits : ExprForm → List Visit
  | .number _ | .bigInt _ | .string _ | .boolean _ | .null | .regExp .. | .ident _
  | .metaProperty .. | .thisExpr | .superExpr => []
  | .binary _ left right => left.visits ++ right.visits
  | .unary _ operand => operand.visits
  | .assignment _ target value => target.visits ++ value.visits
  | .call _ callee args => callee.visits ++ visitsOfExprs args
  | .member _ object _ => object.visits
  | .index _ object index => object.visits ++ index.visits
  | .array elements => visitsOfElements elements
  | .object members => visitsOfMembers members
  | .arrow _ params body => visitsOfParams params ++ body.visits
  | .arrowBlock _ params body => visitsOfParams params ++ body.visits
  | .functionExpr fn => fn.visits
  | .classExpr cls => cls.visits
  | .conditional test yes no => test.visits ++ (yes.visits ++ no.visits)
  | .template _ exprs => visitsOfExprs exprs
  | .taggedTemplate tag _ exprs => tag.visits ++ visitsOfExprs exprs
  | .newCall callee args => callee.visits ++ visitsOfExprs args
  | .awaitExpr operand => operand.visits
  | .yieldExpr operand _ => visitsOfExpr? operand
  | .paren inner => inner.visits
  | .sequence exprs => visitsOfExprs exprs
  | .spread inner => inner.visits

/-- Expressions and their parts. -/
def visitsOfExprs : List Expr → List Visit
  | [] => []
  | e :: es => e.visits ++ visitsOfExprs es

/-- An expression, if it is there, and its parts. -/
def visitsOfExpr? : Option Expr → List Visit
  | none => []
  | some e => e.visits

/-- The elements of an array and their parts. -/
def visitsOfElements : List (Option Expr) → List Visit
  | [] => []
  | e :: es => visitsOfExpr? e ++ visitsOfElements es

/-- The parts of an object literal. -/
def visitsOfMembers : List ObjectMember → List Visit
  | [] => []
  | m :: ms => m.visits ++ visitsOfMembers ms

/-- The parts of a member of an object literal. -/
def ObjectMember.visits : ObjectMember → List Visit
  | .property key value _ => key.visits ++ value.visits
  | .method key _ fn => key.visits ++ fn.visits
  | .spread value => value.visits

/-- The parts of a key: only a computed one has any. -/
def PropertyKey.visits : PropertyKey → List Visit
  | .computed value => value.visits
  | .name _ | .string _ | .number _ | .privateName _ => []

/-- The patterns of parameters and their parts. -/
def visitsOfParams : List Param → List Visit
  | [] => []
  | p :: ps => p.visits ++ visitsOfParams ps

/-- The pattern of a parameter and its parts. -/
def Param.visits : Param → List Visit
  | ⟨pattern, _⟩ => pattern.visits

/-- A function and its parts. -/
def FunctionDef.visits : FunctionDef → List Visit
  | ⟨name, params, body, isAsync, isGenerator⟩ =>
    .function ⟨name, params, body, isAsync, isGenerator⟩ :: (visitsOfParams params ++ body.visits)

/-- A class and its parts. -/
def ClassDef.visits : ClassDef → List Visit
  | ⟨name, base, members⟩ =>
    .class ⟨name, base, members⟩ :: (visitsOfExpr? base ++ visitsOfClassMembers members)

/-- The parts of the members of a class. -/
def visitsOfClassMembers : List ClassMember → List Visit
  | [] => []
  | m :: ms => m.visits ++ visitsOfClassMembers ms

/-- The parts of a member of a class. -/
def ClassMember.visits : ClassMember → List Visit
  | .constructorDef params body => visitsOfParams params ++ body.visits
  | .method key _ fn _ => key.visits ++ fn.visits
  | .field key value _ => key.visits ++ visitsOfExpr? value
  | .staticBlock body => body.visits

/-- A pattern and its parts. -/
def Pattern.visits : Pattern → List Visit
  | ⟨span, form⟩ => .pattern ⟨span, form⟩ :: form.visits

/-- The parts of a pattern. -/
def PatternForm.visits : PatternForm → List Visit
  | .ident _ => []
  | .array elements rest => visitsOfPositions elements ++ visitsOfPattern? rest
  | .object properties rest => visitsOfProperties properties ++ visitsOfPattern? rest
  | .withDefault pattern value => pattern.visits ++ value.visits
  | .target expr => expr.visits

/-- A pattern, if it is there, and its parts. -/
def visitsOfPattern? : Option Pattern → List Visit
  | none => []
  | some p => p.visits

/-- The positions of an array pattern and their parts. -/
def visitsOfPositions : List (Option Pattern) → List Visit
  | [] => []
  | p :: ps => visitsOfPattern? p ++ visitsOfPositions ps

/-- The parts of the properties of a pattern. -/
def visitsOfProperties : List PatternProperty → List Visit
  | [] => []
  | p :: ps => p.visits ++ visitsOfProperties ps

/-- The parts of a property of a pattern. -/
def PatternProperty.visits : PatternProperty → List Visit
  | ⟨key, value, _⟩ => key.visits ++ value.visits

/-- The statements of a block and their parts. -/
def Block.visits : Block → List Visit
  | ⟨_, stmts⟩ => visitsOfStmts stmts

/-- The statements of a block, if it is there, and their parts. -/
def visitsOfBlock? : Option Block → List Visit
  | none => []
  | some b => b.visits

/-- Statements and their parts. -/
def visitsOfStmts : List Stmt → List Visit
  | [] => []
  | s :: ss => s.visits ++ visitsOfStmts ss

/-- A statement, if it is there, and its parts. -/
def visitsOfStmt? : Option Stmt → List Visit
  | none => []
  | some s => s.visits

/-- A statement and its parts. -/
def Stmt.visits : Stmt → List Visit
  | ⟨span, form⟩ => .stmt ⟨span, form⟩ :: form.visits

/-- The parts of a statement; the test of a loop comes before its body, wherever it stands. -/
def StmtForm.visits : StmtForm → List Visit
  | .expr expr => expr.visits
  | .decl decl => decl.visits
  | .returnStmt value => visitsOfExpr? value
  | .ifStmt test yes no => test.visits ++ (yes.visits ++ visitsOfStmt? no)
  | .forStmt start test update body =>
    start.visits ++ (visitsOfExpr? test ++ (visitsOfExpr? update ++ body.visits))
  | .forIn target object body => target.visits ++ (object.visits ++ body.visits)
  | .forOf _ target values body => target.visits ++ (values.visits ++ body.visits)
  | .whileStmt test body => test.visits ++ body.visits
  | .doWhile body test => test.visits ++ body.visits
  | .block stmts => visitsOfStmts stmts
  | .throwStmt value => value.visits
  | .tryStmt block handler finalizer =>
    block.visits ++ (handler.visits ++ visitsOfBlock? finalizer)
  | .switchStmt subject cases => subject.visits ++ visitsOfCases cases
  | .labeled _ stmt => stmt.visits
  | .breakStmt _ | .continueStmt _ | .empty | .debugger => []

/-- A declaration and its parts. -/
def Decl.visits : Decl → List Visit
  | .function fn => .decl (.function fn) :: fn.visits
  | .class cls => .decl (.class cls) :: cls.visits
  | .vars kind bindings => .decl (.vars kind bindings) :: visitsOfBindings bindings

/-- The parts of variable declarations. -/
def visitsOfBindings : List Binding → List Visit
  | [] => []
  | b :: bs => b.visits ++ visitsOfBindings bs

/-- The parts of a variable declaration. -/
def Binding.visits : Binding → List Visit
  | ⟨pattern, value⟩ => pattern.visits ++ visitsOfExpr? value

/-- The parts of what a loop starts with. -/
def ForStart.visits : ForStart → List Visit
  | .nothing => []
  | .vars _ bindings => visitsOfBindings bindings
  | .expr expr => expr.visits

/-- The parts of the target of a loop. -/
def ForTarget.visits : ForTarget → List Visit
  | .vars _ bindings => visitsOfBindings bindings
  | .pattern pattern => pattern.visits

/-- The parts of a handler. -/
def Handler.visits : Handler → List Visit
  | .nothing => []
  | .catch param body => visitsOfPattern? param ++ body.visits

/-- The parts of the branches of a switch. -/
def visitsOfCases : List SwitchCase → List Visit
  | [] => []
  | c :: cs => c.visits ++ visitsOfCases cs

/-- The parts of a branch of a switch. -/
def SwitchCase.visits : SwitchCase → List Visit
  | ⟨test, body⟩ => visitsOfExpr? test ++ visitsOfStmts body

end

/-- A top-level item and its parts; the names in import and export lists are not visited. -/
def Item.visits (item : Item) : List Visit :=
  .item item :: match item.form with
    | .importDecl _ | .exportDecl (.named ..) | .exportDecl (.all ..) => []
    | .exportDecl (.defaultExpr expr) => expr.visits
    | .exportDecl (.defaultDecl _ decl) | .exportDecl (.decl _ decl) => decl.visits
    | .stmt stmt => stmt.visits

/-- A module and its parts. -/
def Program.visits (program : Program) : List Visit :=
  .program program :: program.items.flatMap Item.visits

end ModuleBundler
