import ModuleBundler.Tree.Basic

/-! The spans of the parts of a module, as a tree: each item, statement, exported declaration,
expression, pattern, name and block has a node, below the node of what it is a part of. -/
namespace ModuleBundler

/-- A tree of spans. -/
inductive Outline where
  | node (span : Span) (parts : List Outline)
  /-- A property that is written as its key alone: the key, and the value that it stands for. -/
  | shorthand (key : Span) (value : Outline)

namespace Outline

/-- A part of a node; a property has its key and its value. -/
def part? : Outline → Nat → Option Outline
  | node _ parts, i => parts[i]?
  | shorthand key _, 0 => some (node key [])
  | shorthand _ value, 1 => some value
  | shorthand .., _ => none

/-- What is found by going from part to part. -/
def at? : Outline → List Nat → Option Outline
  | o, [] => some o
  | o, i :: place => (o.part? i).bind (·.at? place)

/-- The span of a node; a property is not a node. -/
def span? : Outline → Option Span
  | node span _ => some span
  | shorthand .. => none

/-- The span of the node at a place. -/
def spanAt? (o : Outline) (place : List Nat) : Option Span := (o.at? place).bind span?

@[simp] theorem at?_nil (o : Outline) : o.at? [] = some o := by cases o <;> rfl

@[simp] theorem at?_cons (o : Outline) (i : Nat) (place : List Nat) :
    o.at? (i :: place) = (o.part? i).bind (·.at? place) := by cases o <;> rfl

theorem at?_append (o : Outline) (place rest : List Nat) :
    o.at? (place ++ rest) = (o.at? place).bind (·.at? rest) := by
  induction place generalizing o with
  | nil => simp
  | cons i place ih =>
    rw [List.cons_append, at?_cons, at?_cons]
    rcases o.part? i with _ | p
    · rfl
    · exact ih p

/-- The stretch from the first to the last byte of it. -/
def extent : Outline → Span
  | node span _ => span
  | shorthand key value => key.merge value.extent

theorem extent_of_span? {o : Outline} {a : Span} (h : o.span? = some a) : o.extent = a := by
  cases o <;> cases h
  rfl

end Outline

/-- The node of a name. -/
def Ident.outline (i : Ident) : Outline := .node i.span []

/-- The node of a name, if it is there. -/
def outlinesOfIdent? (i : Option Ident) : List Outline := i.toList.map Ident.outline

/-- The nodes of a property with its key; if it is written as the key alone they share a text. -/
def outlinesOfProperty (key : PropertyKey) (keys : List Outline) (value : Outline)
    (shorthand : Bool) : List Outline :=
  match key, shorthand with
  | .name ident, true => [.shorthand ident.span value]
  | _, _ => keys ++ [value]

mutual

/-- The node of an expression. -/
def Expr.outline : Expr → Outline
  | ⟨span, form⟩ => .node span form.outlines

/-- The nodes of the parts of an expression. -/
def ExprForm.outlines : ExprForm → List Outline
  | .number _ | .bigInt _ | .string _ | .boolean _ | .null | .regExp .. | .ident _
  | .thisExpr | .superExpr => []
  | .metaProperty object property => [object.outline, property.outline]
  | .binary _ left right => [left.outline, right.outline]
  | .unary _ operand => [operand.outline]
  | .assignment _ target value => [target.outline, value.outline]
  | .call _ callee args => callee.outline :: outlinesOfExprs args
  | .member _ object property => [object.outline, property.outline]
  | .index _ object index => [object.outline, index.outline]
  | .array elements => outlinesOfElements elements
  | .object members => outlinesOfMembers members
  | .arrow _ params body => outlinesOfParams params ++ [body.outline]
  | .arrowBlock _ params body => outlinesOfParams params ++ [body.outline]
  | .functionExpr fn => fn.outlines
  | .classExpr cls => cls.outlines
  | .conditional test yes no => [test.outline, yes.outline, no.outline]
  | .template _ exprs => outlinesOfExprs exprs
  | .taggedTemplate tag _ exprs => tag.outline :: outlinesOfExprs exprs
  | .newCall callee args => callee.outline :: outlinesOfExprs args
  | .awaitExpr operand => [operand.outline]
  | .yieldExpr operand _ => outlinesOfExpr? operand
  | .paren inner => [inner.outline]
  | .sequence exprs => outlinesOfExprs exprs
  | .spread inner => [inner.outline]

/-- The nodes of expressions. -/
def outlinesOfExprs : List Expr → List Outline
  | [] => []
  | e :: es => e.outline :: outlinesOfExprs es

/-- The node of an expression, if it is there. -/
def outlinesOfExpr? : Option Expr → List Outline
  | none => []
  | some e => [e.outline]

/-- The nodes of the elements of an array. -/
def outlinesOfElements : List (Option Expr) → List Outline
  | [] => []
  | e :: es => outlinesOfExpr? e ++ outlinesOfElements es

/-- The nodes of the members of an object literal. -/
def outlinesOfMembers : List ObjectMember → List Outline
  | [] => []
  | m :: ms => m.outlines ++ outlinesOfMembers ms

/-- The nodes of a member of an object literal. -/
def ObjectMember.outlines : ObjectMember → List Outline
  | .property key value shorthand => outlinesOfProperty key key.outlines value.outline shorthand
  | .method key _ fn => key.outlines ++ fn.outlines
  | .spread value => [value.outline]

/-- The node of a key that is a name or computed. -/
def PropertyKey.outlines : PropertyKey → List Outline
  | .name ident | .privateName ident => [ident.outline]
  | .computed value => [value.outline]
  | .string _ | .number _ => []

/-- The nodes of parameters. -/
def outlinesOfParams : List Param → List Outline
  | [] => []
  | p :: ps => p.outlines ++ outlinesOfParams ps

/-- The node of a parameter. -/
def Param.outlines : Param → List Outline
  | ⟨pattern, _⟩ => [pattern.outline]

/-- The nodes of a function: its name, its parameters and its body. -/
def FunctionDef.outlines : FunctionDef → List Outline
  | ⟨name, params, body, _, _⟩ =>
    outlinesOfIdent? name ++ (outlinesOfParams params ++ [body.outline])

/-- The nodes of a class: its name, what it extends and its members. -/
def ClassDef.outlines : ClassDef → List Outline
  | ⟨name, base, members⟩ =>
    outlinesOfIdent? name ++ (outlinesOfExpr? base ++ outlinesOfClassMembers members)

/-- The nodes of the members of a class. -/
def outlinesOfClassMembers : List ClassMember → List Outline
  | [] => []
  | m :: ms => m.outlines ++ outlinesOfClassMembers ms

/-- The nodes of a member of a class. -/
def ClassMember.outlines : ClassMember → List Outline
  | .constructorDef params body => outlinesOfParams params ++ [body.outline]
  | .method key _ fn _ => key.outlines ++ fn.outlines
  | .field key value _ => key.outlines ++ outlinesOfExpr? value
  | .staticBlock body => [body.outline]

/-- The node of a pattern. -/
def Pattern.outline : Pattern → Outline
  | ⟨span, form⟩ => .node span form.outlines

/-- The nodes of the parts of a pattern. -/
def PatternForm.outlines : PatternForm → List Outline
  | .ident ident => [ident.outline]
  | .array elements rest => outlinesOfPositions elements ++ outlinesOfPattern? rest
  | .object properties rest => outlinesOfProperties properties ++ outlinesOfPattern? rest
  | .withDefault pattern value => [pattern.outline, value.outline]
  | .target expr => [expr.outline]

/-- The node of a pattern, if it is there. -/
def outlinesOfPattern? : Option Pattern → List Outline
  | none => []
  | some p => [p.outline]

/-- The nodes of the positions of an array pattern. -/
def outlinesOfPositions : List (Option Pattern) → List Outline
  | [] => []
  | p :: ps => outlinesOfPattern? p ++ outlinesOfPositions ps

/-- The nodes of the properties of a pattern. -/
def outlinesOfProperties : List PatternProperty → List Outline
  | [] => []
  | p :: ps => p.outlines ++ outlinesOfProperties ps

/-- The nodes of a property of a pattern. -/
def PatternProperty.outlines : PatternProperty → List Outline
  | ⟨key, value, shorthand⟩ => outlinesOfProperty key key.outlines value.outline shorthand

/-- The node of a block. -/
def Block.outline : Block → Outline
  | ⟨span, stmts⟩ => .node span (outlinesOfStmts stmts)

/-- The node of a block, if it is there. -/
def outlinesOfBlock? : Option Block → List Outline
  | none => []
  | some b => [b.outline]

/-- The nodes of statements. -/
def outlinesOfStmts : List Stmt → List Outline
  | [] => []
  | s :: ss => s.outline :: outlinesOfStmts ss

/-- The node of a statement, if it is there. -/
def outlinesOfStmt? : Option Stmt → List Outline
  | none => []
  | some s => [s.outline]

/-- The node of a statement. -/
def Stmt.outline : Stmt → Outline
  | ⟨span, form⟩ => .node span form.outlines

/-- The nodes of the parts of a statement. -/
def StmtForm.outlines : StmtForm → List Outline
  | .expr expr => [expr.outline]
  | .decl decl => decl.outlines
  | .returnStmt value => outlinesOfExpr? value
  | .ifStmt test yes no => test.outline :: yes.outline :: outlinesOfStmt? no
  | .forStmt start test update body =>
    start.outlines ++ (outlinesOfExpr? test ++ (outlinesOfExpr? update ++ [body.outline]))
  | .forIn target object body => target.outlines ++ [object.outline, body.outline]
  | .forOf _ target values body => target.outlines ++ [values.outline, body.outline]
  | .whileStmt test body => [test.outline, body.outline]
  | .doWhile body test => [body.outline, test.outline]
  | .block stmts => outlinesOfStmts stmts
  | .throwStmt value => [value.outline]
  | .tryStmt block handler finalizer =>
    block.outline :: (handler.outlines ++ outlinesOfBlock? finalizer)
  | .switchStmt subject cases => subject.outline :: outlinesOfCases cases
  | .labeled label stmt => [label.outline, stmt.outline]
  | .breakStmt label | .continueStmt label => outlinesOfIdent? label
  | .empty | .debugger => []

/-- The nodes of a declaration. -/
def Decl.outlines : Decl → List Outline
  | .function fn => fn.outlines
  | .class cls => cls.outlines
  | .vars _ bindings => outlinesOfBindings bindings

/-- The nodes of variable declarations. -/
def outlinesOfBindings : List Binding → List Outline
  | [] => []
  | b :: bs => b.outlines ++ outlinesOfBindings bs

/-- The nodes of a variable declaration. -/
def Binding.outlines : Binding → List Outline
  | ⟨pattern, value⟩ => pattern.outline :: outlinesOfExpr? value

/-- The nodes of what a loop starts with. -/
def ForStart.outlines : ForStart → List Outline
  | .nothing => []
  | .vars _ bindings => outlinesOfBindings bindings
  | .expr expr => [expr.outline]

/-- The nodes of the target of a loop. -/
def ForTarget.outlines : ForTarget → List Outline
  | .vars _ bindings => outlinesOfBindings bindings
  | .pattern pattern => [pattern.outline]

/-- The nodes of a handler. -/
def Handler.outlines : Handler → List Outline
  | .nothing => []
  | .catch param body => outlinesOfPattern? param ++ [body.outline]

/-- The nodes of the branches of a switch. -/
def outlinesOfCases : List SwitchCase → List Outline
  | [] => []
  | c :: cs => c.outlines ++ outlinesOfCases cs

/-- The nodes of a branch of a switch. -/
def SwitchCase.outlines : SwitchCase → List Outline
  | ⟨test, body⟩ => outlinesOfExpr? test ++ outlinesOfStmts body

end

/-- The nodes of what an import binds. -/
def ImportSpecifier.outlines : ImportSpecifier → List Outline
  | .default name | .namespace name => [name.outline]
  | .named imported newName => imported.outline :: outlinesOfIdent? newName

/-- The nodes of a name that is exported. -/
def ExportSpecifier.outlines (s : ExportSpecifier) : List Outline :=
  s.name.outline :: outlinesOfIdent? s.newName

/-- The nodes of an export declaration. -/
def ExportDecl.outlines : ExportDecl → List Outline
  | .named specifiers _ => specifiers.flatMap ExportSpecifier.outlines
  | .defaultExpr expr => [expr.outline]
  | .defaultDecl span d | .decl span d => [.node span d.outlines]
  | .all _ newName => outlinesOfIdent? newName

/-- The nodes of what stands at the top level. -/
def ItemForm.outlines : ItemForm → List Outline
  | .importDecl decl => decl.specifiers.flatMap ImportSpecifier.outlines
  | .exportDecl decl => decl.outlines
  | .stmt s => [s.outline]

/-- The node of a top-level item. -/
def Item.outline (i : Item) : Outline := .node i.span i.form.outlines

/-- The nodes of a module. -/
def Program.outline (p : Program) : Outline := .node p.span (p.items.map Item.outline)

@[simp] theorem Expr.extent_outline (e : Expr) : e.outline.extent = e.span := by
  cases e
  rfl

@[simp] theorem Pattern.extent_outline (p : Pattern) : p.outline.extent = p.span := by
  cases p
  rfl

@[simp] theorem outlinesOfProperty_false (key : PropertyKey) (keys : List Outline)
    (value : Outline) : outlinesOfProperty key keys value false = keys ++ [value] := by
  cases key <;> rfl

section Lists

theorem outlines_exprs (es : List Expr) : outlinesOfExprs es = es.flatMap fun e => [e.outline] := by
  induction es with
  | nil => rfl
  | cons e es ih => simp [outlinesOfExprs, ih]

theorem outlines_elements (es : List (Option Expr)) :
    outlinesOfElements es = es.flatMap outlinesOfExpr? := by
  induction es with
  | nil => rfl
  | cons e es ih => simp [outlinesOfElements, ih]

theorem outlines_members (ms : List ObjectMember) :
    outlinesOfMembers ms = ms.flatMap ObjectMember.outlines := by
  induction ms with
  | nil => rfl
  | cons m ms ih => simp [outlinesOfMembers, ih]

theorem outlines_params (ps : List Param) :
    outlinesOfParams ps = ps.flatMap Param.outlines := by
  induction ps with
  | nil => rfl
  | cons p ps ih => simp [outlinesOfParams, ih]

/-- Semicolons between the members of a class have no nodes. -/
theorem outlines_classMembers (ms : List (Option ClassMember)) :
    outlinesOfClassMembers (ms.filterMap id)
      = ms.flatMap fun m => m.elim [] ClassMember.outlines := by
  induction ms with
  | nil => rfl
  | cons m ms ih =>
    cases m with
    | none => exact ih
    | some m => exact congrArg (m.outlines ++ ·) ih

theorem outlines_positions (ps : List (Option Pattern)) :
    outlinesOfPositions ps = ps.flatMap outlinesOfPattern? := by
  induction ps with
  | nil => rfl
  | cons p ps ih => simp [outlinesOfPositions, ih]

theorem outlines_properties (ps : List PatternProperty) :
    outlinesOfProperties ps = ps.flatMap PatternProperty.outlines := by
  induction ps with
  | nil => rfl
  | cons p ps ih => simp [outlinesOfProperties, ih]

theorem outlines_stmts (ss : List Stmt) : outlinesOfStmts ss = ss.flatMap fun s => [s.outline] := by
  induction ss with
  | nil => rfl
  | cons s ss ih => simp [outlinesOfStmts, ih]

theorem outlines_bindings (bs : List Binding) :
    outlinesOfBindings bs = bs.flatMap Binding.outlines := by
  induction bs with
  | nil => rfl
  | cons b bs ih => simp [outlinesOfBindings, ih]

theorem outlines_cases (cs : List SwitchCase) :
    outlinesOfCases cs = cs.flatMap SwitchCase.outlines := by
  induction cs with
  | nil => rfl
  | cons c cs ih => simp [outlinesOfCases, ih]

end Lists

end ModuleBundler
