import ModuleBundler.Span
import ModuleBundler.Tree.Operator

/-! The tree of a script: every expression, pattern, statement, block and top-level item has the
span that it was read from. -/
namespace ModuleBundler

/-- A name where it stands. -/
structure Ident where
  name : String
  span : Span
  deriving DecidableEq, Repr

mutual

/-- An expression. -/
structure Expr where
  span : Span
  form : ExprForm

/-- What an expression is made of. -/
inductive ExprForm where
  | number (value : Float)
  | bigInt (digits : String)
  | string (value : String)
  | boolean (value : Bool)
  | null
  | regExp (pattern flags : String)
  | ident (name : String)
  | binary (op : BinaryOp) (left right : Expr)
  | unary (op : UnaryOp) (operand : Expr)
  | assignment (op : AssignmentOp) (target value : Expr)
  /-- A call, made only on a value if `optional`. -/
  | call (optional : Bool) (callee : Expr) (args : List Expr)
  /-- A named property, taken only of a value if `optional`. -/
  | member (optional : Bool) (object : Expr) (property : Ident)
  /-- A computed property, taken only of a value if `optional`. -/
  | index (optional : Bool) (object index : Expr)
  /-- An array; an element that is left out is a hole. -/
  | array (elements : List (Option Expr))
  | object (members : List ObjectMember)
  | arrow (isAsync : Bool) (params : List Param) (body : Expr)
  | arrowBlock (isAsync : Bool) (params : List Param) (body : Block)
  | functionExpr (fn : FunctionDef)
  | classExpr (cls : ClassDef)
  | conditional (test yes no : Expr)
  /-- A template: pieces of text with the expressions between them. -/
  | template (texts : List String) (exprs : List Expr)
  | taggedTemplate (tag : Expr) (texts : List String) (exprs : List Expr)
  | newCall (callee : Expr) (args : List Expr)
  | awaitExpr (operand : Expr)
  | yieldExpr (operand : Option Expr) (delegate : Bool)
  | paren (inner : Expr)
  | sequence (exprs : List Expr)
  | spread (inner : Expr)
  | metaProperty (object property : Ident)
  | thisExpr
  | superExpr

/-- A part of an object literal. -/
inductive ObjectMember where
  | property (key : PropertyKey) (value : Expr) (shorthand : Bool)
  | method (key : PropertyKey) (kind : MethodKind) (fn : FunctionDef)
  | spread (value : Expr)

/-- The key of a property, method or field. -/
inductive PropertyKey where
  | name (ident : Ident)
  | string (value : String)
  | number (value : Float)
  | privateName (ident : Ident)
  | computed (value : Expr)

/-- A parameter, which takes all arguments that are left if `isRest`. -/
structure Param where
  pattern : Pattern
  isRest : Bool

/-- A function, method or accessor. -/
structure FunctionDef where
  name : Option Ident
  params : List Param
  body : Block
  isAsync : Bool
  isGenerator : Bool

/-- A class. -/
structure ClassDef where
  name : Option Ident
  base : Option Expr
  members : List ClassMember

/-- A part of a class. -/
inductive ClassMember where
  | constructorDef (params : List Param) (body : Block)
  | method (key : PropertyKey) (kind : MethodKind) (fn : FunctionDef) (isStatic : Bool)
  | field (key : PropertyKey) (value : Option Expr) (isStatic : Bool)
  | staticBlock (body : Block)

/-- A target that values are taken apart into. -/
structure Pattern where
  span : Span
  form : PatternForm

/-- What a pattern is made of. -/
inductive PatternForm where
  | ident (ident : Ident)
  /-- An array; a position that is left out is a hole. -/
  | array (elements : List (Option Pattern)) (rest : Option Pattern)
  | object (properties : List PatternProperty) (rest : Option Pattern)
  | withDefault (pattern : Pattern) (value : Expr)
  /-- A property as the target of a loop. -/
  | target (expr : Expr)

/-- A property that a pattern takes. -/
structure PatternProperty where
  key : PropertyKey
  value : Pattern
  shorthand : Bool

/-- Statements in braces. -/
structure Block where
  span : Span
  stmts : List Stmt

/-- A statement. -/
structure Stmt where
  span : Span
  form : StmtForm

/-- What a statement is made of. -/
inductive StmtForm where
  | expr (expr : Expr)
  | decl (decl : Decl)
  | returnStmt (value : Option Expr)
  | ifStmt (test : Expr) (yes : Stmt) (no : Option Stmt)
  | forStmt (start : ForStart) (test update : Option Expr) (body : Stmt)
  | forIn (target : ForTarget) (object : Expr) (body : Stmt)
  | forOf (isAwait : Bool) (target : ForTarget) (values : Expr) (body : Stmt)
  | whileStmt (test : Expr) (body : Stmt)
  | doWhile (body : Stmt) (test : Expr)
  | block (stmts : List Stmt)
  | breakStmt (label : Option Ident)
  | continueStmt (label : Option Ident)
  | throwStmt (value : Expr)
  | tryStmt (block : Block) (handler : Handler) (finalizer : Option Block)
  | switchStmt (subject : Expr) (cases : List SwitchCase)
  | labeled (label : Ident) (stmt : Stmt)
  | empty
  | debugger

/-- A declaration. -/
inductive Decl where
  | function (fn : FunctionDef)
  | class (cls : ClassDef)
  | vars (kind : VarKind) (bindings : List Binding)

/-- A declared variable, or several in a pattern. -/
structure Binding where
  pattern : Pattern
  value : Option Expr

/-- What a loop with a condition starts with. -/
inductive ForStart where
  | nothing
  | vars (kind : VarKind) (bindings : List Binding)
  | expr (expr : Expr)

/-- What a loop over values stores them in. -/
inductive ForTarget where
  | vars (kind : VarKind) (bindings : List Binding)
  | pattern (pattern : Pattern)

/-- What a statement does with an exception. -/
inductive Handler where
  | nothing
  | catch (param : Option Pattern) (body : Block)

/-- A branch of a switch, the default one without a test. -/
structure SwitchCase where
  test : Option Expr
  body : List Stmt

end

/-- The module that a declaration names, with the span of its quotes. -/
structure ModuleSource where
  specifier : String
  span : Span
  deriving DecidableEq, Repr

/-- What an import declaration binds. -/
inductive ImportSpecifier where
  | default (name : Ident)
  | namespace (name : Ident)
  | named (imported : Ident) (newName : Option Ident)

/-- An import declaration. -/
structure ImportDecl where
  specifiers : List ImportSpecifier
  source : ModuleSource

/-- A name that is exported. -/
structure ExportSpecifier where
  name : Ident
  newName : Option Ident

/-- The name under which others see the export. -/
def ExportSpecifier.exportedName (s : ExportSpecifier) : String := (s.newName.getD s.name).name

/-- An export declaration. -/
inductive ExportDecl where
  | named (specifiers : List ExportSpecifier) (source : Option ModuleSource)
  | defaultExpr (expr : Expr)
  | defaultDecl (span : Span) (decl : Decl)
  | all (source : ModuleSource) (newName : Option Ident)
  | decl (span : Span) (decl : Decl)

/-- What stands at the top level of a module. -/
inductive ItemForm where
  | importDecl (decl : ImportDecl)
  | exportDecl (decl : ExportDecl)
  | stmt (stmt : Stmt)

/-- A top-level item. -/
structure Item where
  span : Span
  form : ItemForm

/-- A whole module. -/
structure Program where
  span : Span
  items : List Item

/-- The item imports or exports. -/
def Item.isModuleSyntax (item : Item) : Bool :=
  match item.form with
  | .importDecl _ | .exportDecl _ => true
  | .stmt _ => false

/-- The module imports or exports by declarations. -/
def Program.hasModuleSyntax (p : Program) : Bool := p.items.any Item.isModuleSyntax

end ModuleBundler
