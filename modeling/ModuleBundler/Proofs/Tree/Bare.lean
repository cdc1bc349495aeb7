import ModuleBundler.Tree.Names
import ModuleBundler.Tree.Visit

/-! Trees without their places: two trees are equal up to spans if their bare forms are equal.
On the way the literals at some spans may get other texts. -/
namespace ModuleBundler

/-- The texts that take the place of the literals at some spans. -/
abbrev Answers := Span → Option String

/-- No literal gets another text. -/
def Answers.none : Answers := fun _ => .none

/-- The span of what has no place. -/
def Span.nowhere : Span := ⟨0, 0⟩

def Ident.bare (i : Ident) : Ident := ⟨i.name, .nowhere⟩

variable (a : Answers)

mutual

/-- An expression without spans, with the answers in place of literals. -/
def Expr.bare : Expr → Expr
  | ⟨span, form⟩ => ⟨.nowhere, form.bare span⟩

/-- What an expression with a given span is made of, without spans. A string or a template
without substitutions becomes the string that answers its span. -/
def ExprForm.bare (span : Span) : ExprForm → ExprForm
  | .string value => .string ((a span).getD value)
  | .template texts [] =>
    match a span with
    | some value => .string value
    | none => .template texts []
  | .template texts (e :: es) => .template texts (e.bare :: bareExprs es)
  | .number value => .number value
  | .bigInt digits => .bigInt digits
  | .boolean value => .boolean value
  | .null => .null
  | .regExp pattern flags => .regExp pattern flags
  | .ident name => .ident name
  | .binary op left right => .binary op left.bare right.bare
  | .unary op operand => .unary op operand.bare
  | .assignment op target value => .assignment op target.bare value.bare
  | .call optional callee args => .call optional callee.bare (bareExprs args)
  | .member optional object property => .member optional object.bare property.bare
  | .index optional object index => .index optional object.bare index.bare
  | .array elements => .array (bareElements elements)
  | .object members => .object (bareMembers members)
  | .arrow isAsync params body => .arrow isAsync (bareParams params) body.bare
  | .arrowBlock isAsync params body => .arrowBlock isAsync (bareParams params) body.bare
  | .functionExpr fn => .functionExpr fn.bare
  | .classExpr cls => .classExpr cls.bare
  | .conditional test yes no => .conditional test.bare yes.bare no.bare
  | .taggedTemplate tag texts exprs => .taggedTemplate tag.bare texts (bareExprs exprs)
  | .newCall callee args => .newCall callee.bare (bareExprs args)
  | .awaitExpr operand => .awaitExpr operand.bare
  | .yieldExpr operand delegate => .yieldExpr (bareExpr? operand) delegate
  | .paren inner => .paren inner.bare
  | .sequence exprs => .sequence (bareExprs exprs)
  | .spread inner => .spread inner.bare
  | .metaProperty object property => .metaProperty object.bare property.bare
  | .thisExpr => .thisExpr
  | .superExpr => .superExpr

def bareExprs : List Expr → List Expr
  | [] => []
  | e :: es => e.bare :: bareExprs es

def bareExpr? : Option Expr → Option Expr
  | none => none
  | some e => some e.bare

def bareElements : List (Option Expr) → List (Option Expr)
  | [] => []
  | e :: es => bareExpr? e :: bareElements es

def bareMembers : List ObjectMember → List ObjectMember
  | [] => []
  | m :: ms => m.bare :: bareMembers ms

/-- A member of an object literal without spans. -/
def ObjectMember.bare : ObjectMember → ObjectMember
  | .property key value shorthand => .property key.bare value.bare shorthand
  | .method key kind fn => .method key.bare kind fn.bare
  | .spread value => .spread value.bare

/-- A key without spans; a string that is a key stays as it is. -/
def PropertyKey.bare : PropertyKey → PropertyKey
  | .name ident => .name ident.bare
  | .string value => .string value
  | .number value => .number value
  | .privateName ident => .privateName ident.bare
  | .computed value => .computed value.bare

def bareParams : List Param → List Param
  | [] => []
  | p :: ps => p.bare :: bareParams ps

/-- A parameter without spans. -/
def Param.bare : Param → Param
  | ⟨pattern, isRest⟩ => ⟨pattern.bare, isRest⟩

/-- A function without spans. -/
def FunctionDef.bare : FunctionDef → FunctionDef
  | ⟨name, params, body, isAsync, isGenerator⟩ =>
    ⟨name.map Ident.bare, bareParams params, body.bare, isAsync, isGenerator⟩

/-- A class without spans. -/
def ClassDef.bare : ClassDef → ClassDef
  | ⟨name, base, members⟩ => ⟨name.map Ident.bare, bareExpr? base, bareClassMembers members⟩

def bareClassMembers : List ClassMember → List ClassMember
  | [] => []
  | m :: ms => m.bare :: bareClassMembers ms

/-- A member of a class without spans. -/
def ClassMember.bare : ClassMember → ClassMember
  | .constructorDef params body => .constructorDef (bareParams params) body.bare
  | .method key kind fn isStatic => .method key.bare kind fn.bare isStatic
  | .field key value isStatic => .field key.bare (bareExpr? value) isStatic
  | .staticBlock body => .staticBlock body.bare

/-- A pattern without spans. -/
def Pattern.bare : Pattern → Pattern
  | ⟨_, form⟩ => ⟨.nowhere, form.bare⟩

/-- What a pattern is made of, without spans. -/
def PatternForm.bare : PatternForm → PatternForm
  | .ident ident => .ident ident.bare
  | .array elements rest => .array (barePositions elements) (barePattern? rest)
  | .object properties rest => .object (bareProperties properties) (barePattern? rest)
  | .withDefault pattern value => .withDefault pattern.bare value.bare
  | .target expr => .target expr.bare

def barePattern? : Option Pattern → Option Pattern
  | none => none
  | some p => some p.bare

def barePositions : List (Option Pattern) → List (Option Pattern)
  | [] => []
  | p :: ps => barePattern? p :: barePositions ps

def bareProperties : List PatternProperty → List PatternProperty
  | [] => []
  | p :: ps => p.bare :: bareProperties ps

/-- A property of a pattern without spans. -/
def PatternProperty.bare : PatternProperty → PatternProperty
  | ⟨key, value, shorthand⟩ => ⟨key.bare, value.bare, shorthand⟩

/-- A block without spans. -/
def Block.bare : Block → Block
  | ⟨_, stmts⟩ => ⟨.nowhere, bareStmts stmts⟩

def bareBlock? : Option Block → Option Block
  | none => none
  | some b => some b.bare

def bareStmts : List Stmt → List Stmt
  | [] => []
  | s :: ss => s.bare :: bareStmts ss

def bareStmt? : Option Stmt → Option Stmt
  | none => none
  | some s => some s.bare

/-- A statement without spans. -/
def Stmt.bare : Stmt → Stmt
  | ⟨_, form⟩ => ⟨.nowhere, form.bare⟩

/-- What a statement is made of, without spans. -/
def StmtForm.bare : StmtForm → StmtForm
  | .expr expr => .expr expr.bare
  | .decl decl => .decl decl.bare
  | .returnStmt value => .returnStmt (bareExpr? value)
  | .ifStmt test yes no => .ifStmt test.bare yes.bare (bareStmt? no)
  | .forStmt start test update body =>
    .forStmt start.bare (bareExpr? test) (bareExpr? update) body.bare
  | .forIn target object body => .forIn target.bare object.bare body.bare
  | .forOf isAwait target values body => .forOf isAwait target.bare values.bare body.bare
  | .whileStmt test body => .whileStmt test.bare body.bare
  | .doWhile body test => .doWhile body.bare test.bare
  | .block stmts => .block (bareStmts stmts)
  | .breakStmt label => .breakStmt (label.map Ident.bare)
  | .continueStmt label => .continueStmt (label.map Ident.bare)
  | .throwStmt value => .throwStmt value.bare
  | .tryStmt block handler finalizer => .tryStmt block.bare handler.bare (bareBlock? finalizer)
  | .switchStmt subject cases => .switchStmt subject.bare (bareCases cases)
  | .labeled label stmt => .labeled label.bare stmt.bare
  | .empty => .empty
  | .debugger => .debugger

/-- A declaration without spans. -/
def Decl.bare : Decl → Decl
  | .function fn => .function fn.bare
  | .class cls => .class cls.bare
  | .vars kind bindings => .vars kind (bareBindings bindings)

def bareBindings : List Binding → List Binding
  | [] => []
  | b :: bs => b.bare :: bareBindings bs

/-- A variable declaration without spans. -/
def Binding.bare : Binding → Binding
  | ⟨pattern, value⟩ => ⟨pattern.bare, bareExpr? value⟩

/-- What a loop starts with, without spans. -/
def ForStart.bare : ForStart → ForStart
  | .nothing => .nothing
  | .vars kind bindings => .vars kind (bareBindings bindings)
  | .expr expr => .expr expr.bare

/-- The target of a loop without spans. -/
def ForTarget.bare : ForTarget → ForTarget
  | .vars kind bindings => .vars kind (bareBindings bindings)
  | .pattern pattern => .pattern pattern.bare

/-- A handler without spans. -/
def Handler.bare : Handler → Handler
  | .nothing => .nothing
  | .catch param body => .catch (barePattern? param) body.bare

def bareCases : List SwitchCase → List SwitchCase
  | [] => []
  | c :: cs => c.bare :: bareCases cs

/-- A branch of a switch without spans. -/
def SwitchCase.bare : SwitchCase → SwitchCase
  | ⟨test, body⟩ => ⟨bareExpr? test, bareStmts body⟩

end

def ModuleSource.bare (m : ModuleSource) : ModuleSource := ⟨m.specifier, .nowhere⟩

def ImportSpecifier.bare : ImportSpecifier → ImportSpecifier
  | .default name => .default name.bare
  | .namespace name => .namespace name.bare
  | .named imported newName => .named imported.bare (newName.map Ident.bare)

def ImportDecl.bare (d : ImportDecl) : ImportDecl :=
  ⟨d.specifiers.map ImportSpecifier.bare, d.source.bare⟩

def ExportSpecifier.bare (s : ExportSpecifier) : ExportSpecifier :=
  ⟨s.name.bare, s.newName.map Ident.bare⟩

/-- An export declaration without spans. -/
def ExportDecl.bare : ExportDecl → ExportDecl
  | .named specifiers source =>
    .named (specifiers.map ExportSpecifier.bare) (source.map ModuleSource.bare)
  | .defaultExpr e => .defaultExpr (e.bare a)
  | .defaultDecl _ d => .defaultDecl .nowhere (d.bare a)
  | .all source newName => .all source.bare (newName.map Ident.bare)
  | .decl _ d => .decl .nowhere (d.bare a)

/-- What an item is, without spans. -/
def ItemForm.bare : ItemForm → ItemForm
  | .importDecl d => .importDecl d.bare
  | .exportDecl d => .exportDecl (d.bare a)
  | .stmt s => .stmt (s.bare a)

/-- An item without spans. -/
def Item.bare (item : Item) : Item := ⟨.nowhere, item.form.bare a⟩

/-- A module without spans, with the answers in place of literals. -/
def Program.bare (program : Program) : Program := ⟨.nowhere, program.items.map (Item.bare a)⟩

/-- A part of a module without spans. -/
def Visit.bare : Visit → Visit
  | .program p => .program (p.bare a)
  | .item i => .item (i.bare a)
  | .stmt s => .stmt (s.bare a)
  | .decl d => .decl (d.bare a)
  | .expr e => .expr (e.bare a)
  | .pattern p => .pattern (p.bare a)
  | .function fn => .function (fn.bare a)
  | .class cls => .class (cls.bare a)

/-! ## Lists and what may be missing -/

theorem bareExprs_eq_map (es : List Expr) : bareExprs a es = es.map (Expr.bare a) := by
  induction es with
  | nil => rfl
  | cons e es ih => rw [bareExprs, ih, List.map_cons]

theorem bareExpr?_eq_map (e : Option Expr) : bareExpr? a e = e.map (Expr.bare a) := by
  cases e <;> rfl

theorem bareElements_eq_map (es : List (Option Expr)) :
    bareElements a es = es.map (Option.map (Expr.bare a)) := by
  induction es with
  | nil => rfl
  | cons e es ih => rw [bareElements, ih, bareExpr?_eq_map, List.map_cons]

theorem bareMembers_eq_map (ms : List ObjectMember) :
    bareMembers a ms = ms.map (ObjectMember.bare a) := by
  induction ms with
  | nil => rfl
  | cons m ms ih => rw [bareMembers, ih, List.map_cons]

theorem bareParams_eq_map (ps : List Param) : bareParams a ps = ps.map (Param.bare a) := by
  induction ps with
  | nil => rfl
  | cons p ps ih => rw [bareParams, ih, List.map_cons]

theorem barePattern?_eq_map (p : Option Pattern) :
    barePattern? a p = p.map (Pattern.bare a) := by
  cases p <;> rfl

theorem barePositions_eq_map (ps : List (Option Pattern)) :
    barePositions a ps = ps.map (Option.map (Pattern.bare a)) := by
  induction ps with
  | nil => rfl
  | cons p ps ih => rw [barePositions, ih, barePattern?_eq_map, List.map_cons]

theorem bareProperties_eq_map (ps : List PatternProperty) :
    bareProperties a ps = ps.map (PatternProperty.bare a) := by
  induction ps with
  | nil => rfl
  | cons p ps ih => rw [bareProperties, ih, List.map_cons]

theorem bareBlock?_eq_map (b : Option Block) : bareBlock? a b = b.map (Block.bare a) := by
  cases b <;> rfl

theorem bareStmts_eq_map (ss : List Stmt) : bareStmts a ss = ss.map (Stmt.bare a) := by
  induction ss with
  | nil => rfl
  | cons s ss ih => rw [bareStmts, ih, List.map_cons]

theorem bareStmt?_eq_map (s : Option Stmt) : bareStmt? a s = s.map (Stmt.bare a) := by
  cases s <;> rfl

theorem bareBindings_eq_map (bs : List Binding) :
    bareBindings a bs = bs.map (Binding.bare a) := by
  induction bs with
  | nil => rfl
  | cons b bs ih => rw [bareBindings, ih, List.map_cons]

theorem bareCases_eq_map (cs : List SwitchCase) :
    bareCases a cs = cs.map (SwitchCase.bare a) := by
  induction cs with
  | nil => rfl
  | cons c cs ih => rw [bareCases, ih, List.map_cons]

/-! ## Fixed texts -/

/-- The expression is a string or a template without substitutions. -/
def ExprForm.isText : ExprForm → Bool
  | .string _ | .template _ [] => true
  | _ => false

theorem Expr.isText_of_static {e : Expr} (h : e.staticString?.isSome) : e.form.isText = true := by
  obtain ⟨span, form⟩ := e
  cases form with
  | string value => rfl
  | template texts exprs =>
    cases exprs with
    | nil => rfl
    | cons e es => cases h
  | _ => cases h

variable {a}

theorem ExprForm.bare_answered {f : ExprForm} {s : Span} {v : String} (hf : f.isText = true)
    (hs : a s = some v) : f.bare a s = .string v := by
  cases f with
  | string value => rw [ExprForm.bare, hs, Option.getD_some]
  | template texts exprs =>
    cases exprs with
    | nil => rw [ExprForm.bare, hs]
    | cons e es => cases hf
  | _ => cases hf

theorem ExprForm.bare_unanswered {f : ExprForm} {s : Span} (hf : f.isText = true)
    (hs : a s = none) (s' : Span) : f.bare a s = f.bare .none s' := by
  cases f with
  | string value => rw [ExprForm.bare, hs]; rfl
  | template texts exprs =>
    cases exprs with
    | nil => rw [ExprForm.bare, hs]; rfl
    | cons e es => cases hf
  | _ => cases hf

variable (a)

/-! ## The walk through a bare tree -/

mutual

theorem Expr.visits_bare : ∀ e : Expr, (e.bare a).visits = e.visits.map (Visit.bare a)
  | ⟨span, form⟩ => by
    have h := form.visits_bare span
    simp [Expr.bare, Expr.visits, Visit.bare, h]

theorem ExprForm.visits_bare (span : Span) :
    ∀ f : ExprForm, (f.bare a span).visits = f.visits.map (Visit.bare a)
  | .string _ | .number _ | .bigInt _ | .boolean _ | .null | .regExp .. | .ident _
  | .metaProperty .. | .thisExpr | .superExpr => by simp [ExprForm.bare, ExprForm.visits]
  | .template texts [] => by
    cases h : a span <;> simp [ExprForm.bare, ExprForm.visits, visitsOfExprs, h]
  | .template _ (e :: es) => by
    have he := e.visits_bare
    have hes := visitsOfExprs_bare es
    simp [ExprForm.bare, ExprForm.visits, visitsOfExprs, he, hes]
  | .binary _ left right => by
    have hl := left.visits_bare
    have hr := right.visits_bare
    simp [ExprForm.bare, ExprForm.visits, hl, hr]
  | .unary _ e | .awaitExpr e | .paren e | .spread e => by
    have h := e.visits_bare
    simp [ExprForm.bare, ExprForm.visits, h]
  | .assignment _ target value => by
    have ht := target.visits_bare
    have hv := value.visits_bare
    simp [ExprForm.bare, ExprForm.visits, ht, hv]
  | .call _ callee args | .newCall callee args | .taggedTemplate callee _ args => by
    have hc := callee.visits_bare
    have ha := visitsOfExprs_bare args
    simp [ExprForm.bare, ExprForm.visits, hc, ha]
  | .member _ object _ => by
    have h := object.visits_bare
    simp [ExprForm.bare, ExprForm.visits, h]
  | .index _ object index => by
    have ho := object.visits_bare
    have hi := index.visits_bare
    simp [ExprForm.bare, ExprForm.visits, ho, hi]
  | .array elements => by
    have h := visitsOfElements_bare elements
    simp [ExprForm.bare, ExprForm.visits, h]
  | .object members => by
    have h := visitsOfMembers_bare members
    simp [ExprForm.bare, ExprForm.visits, h]
  | .arrow _ params body => by
    have hp := visitsOfParams_bare params
    have hb := body.visits_bare
    simp [ExprForm.bare, ExprForm.visits, hp, hb]
  | .arrowBlock _ params body => by
    have hp := visitsOfParams_bare params
    have hb := body.visits_bare
    simp [ExprForm.bare, ExprForm.visits, hp, hb]
  | .functionExpr fn => by
    have h := fn.visits_bare
    simp [ExprForm.bare, ExprForm.visits, h]
  | .classExpr cls => by
    have h := cls.visits_bare
    simp [ExprForm.bare, ExprForm.visits, h]
  | .conditional test yes no => by
    have ht := test.visits_bare
    have hy := yes.visits_bare
    have hn := no.visits_bare
    simp [ExprForm.bare, ExprForm.visits, ht, hy, hn]
  | .yieldExpr operand _ => by
    have h := visitsOfExpr?_bare operand
    simp [ExprForm.bare, ExprForm.visits, h]
  | .sequence exprs => by
    have h := visitsOfExprs_bare exprs
    simp [ExprForm.bare, ExprForm.visits, h]

theorem visitsOfExprs_bare : ∀ es : List Expr,
    visitsOfExprs (bareExprs a es) = (visitsOfExprs es).map (Visit.bare a)
  | [] => rfl
  | e :: es => by
    have he := e.visits_bare
    have hes := visitsOfExprs_bare es
    simp [bareExprs, visitsOfExprs, he, hes]

theorem visitsOfExpr?_bare : ∀ e : Option Expr,
    visitsOfExpr? (bareExpr? a e) = (visitsOfExpr? e).map (Visit.bare a)
  | none => rfl
  | some e => e.visits_bare

theorem visitsOfElements_bare : ∀ es : List (Option Expr),
    visitsOfElements (bareElements a es) = (visitsOfElements es).map (Visit.bare a)
  | [] => rfl
  | e :: es => by
    have he := visitsOfExpr?_bare e
    have hes := visitsOfElements_bare es
    simp [bareElements, visitsOfElements, he, hes]

theorem visitsOfMembers_bare : ∀ ms : List ObjectMember,
    visitsOfMembers (bareMembers a ms) = (visitsOfMembers ms).map (Visit.bare a)
  | [] => rfl
  | m :: ms => by
    have hm := m.visits_bare
    have hms := visitsOfMembers_bare ms
    simp [bareMembers, visitsOfMembers, hm, hms]

theorem ObjectMember.visits_bare : ∀ m : ObjectMember,
    (m.bare a).visits = m.visits.map (Visit.bare a)
  | .property key value _ => by
    have hk := key.visits_bare
    have hv := value.visits_bare
    simp [ObjectMember.bare, ObjectMember.visits, hk, hv]
  | .method key _ fn => by
    have hk := key.visits_bare
    have hf := fn.visits_bare
    simp [ObjectMember.bare, ObjectMember.visits, hk, hf]
  | .spread value => value.visits_bare

theorem PropertyKey.visits_bare : ∀ k : PropertyKey,
    (k.bare a).visits = k.visits.map (Visit.bare a)
  | .computed value => value.visits_bare
  | .name _ | .string _ | .number _ | .privateName _ => rfl

theorem visitsOfParams_bare : ∀ ps : List Param,
    visitsOfParams (bareParams a ps) = (visitsOfParams ps).map (Visit.bare a)
  | [] => rfl
  | p :: ps => by
    have hp := p.visits_bare
    have hps := visitsOfParams_bare ps
    simp [bareParams, visitsOfParams, hp, hps]

theorem Param.visits_bare : ∀ p : Param, (p.bare a).visits = p.visits.map (Visit.bare a)
  | ⟨pattern, _⟩ => pattern.visits_bare

theorem FunctionDef.visits_bare : ∀ fn : FunctionDef,
    (fn.bare a).visits = fn.visits.map (Visit.bare a)
  | ⟨_, params, body, _, _⟩ => by
    have hp := visitsOfParams_bare params
    have hb := body.visits_bare
    simp [FunctionDef.bare, FunctionDef.visits, Visit.bare, hp, hb]

theorem ClassDef.visits_bare : ∀ cls : ClassDef,
    (cls.bare a).visits = cls.visits.map (Visit.bare a)
  | ⟨_, base, members⟩ => by
    have hb := visitsOfExpr?_bare base
    have hm := visitsOfClassMembers_bare members
    simp [ClassDef.bare, ClassDef.visits, Visit.bare, hb, hm]

theorem visitsOfClassMembers_bare : ∀ ms : List ClassMember,
    visitsOfClassMembers (bareClassMembers a ms) = (visitsOfClassMembers ms).map (Visit.bare a)
  | [] => rfl
  | m :: ms => by
    have hm := m.visits_bare
    have hms := visitsOfClassMembers_bare ms
    simp [bareClassMembers, visitsOfClassMembers, hm, hms]

theorem ClassMember.visits_bare : ∀ m : ClassMember,
    (m.bare a).visits = m.visits.map (Visit.bare a)
  | .constructorDef params body => by
    have hp := visitsOfParams_bare params
    have hb := body.visits_bare
    simp [ClassMember.bare, ClassMember.visits, hp, hb]
  | .method key _ fn _ => by
    have hk := key.visits_bare
    have hf := fn.visits_bare
    simp [ClassMember.bare, ClassMember.visits, hk, hf]
  | .field key value _ => by
    have hk := key.visits_bare
    have hv := visitsOfExpr?_bare value
    simp [ClassMember.bare, ClassMember.visits, hk, hv]
  | .staticBlock body => body.visits_bare

theorem Pattern.visits_bare : ∀ p : Pattern, (p.bare a).visits = p.visits.map (Visit.bare a)
  | ⟨_, form⟩ => by
    have h := form.visits_bare
    simp [Pattern.bare, Pattern.visits, Visit.bare, h]

theorem PatternForm.visits_bare : ∀ f : PatternForm,
    (f.bare a).visits = f.visits.map (Visit.bare a)
  | .ident _ => rfl
  | .array elements rest => by
    have he := visitsOfPositions_bare elements
    have hr := visitsOfPattern?_bare rest
    simp [PatternForm.bare, PatternForm.visits, he, hr]
  | .object properties rest => by
    have hp := visitsOfProperties_bare properties
    have hr := visitsOfPattern?_bare rest
    simp [PatternForm.bare, PatternForm.visits, hp, hr]
  | .withDefault pattern value => by
    have hp := pattern.visits_bare
    have hv := value.visits_bare
    simp [PatternForm.bare, PatternForm.visits, hp, hv]
  | .target expr => expr.visits_bare

theorem visitsOfPattern?_bare : ∀ p : Option Pattern,
    visitsOfPattern? (barePattern? a p) = (visitsOfPattern? p).map (Visit.bare a)
  | none => rfl
  | some p => p.visits_bare

theorem visitsOfPositions_bare : ∀ ps : List (Option Pattern),
    visitsOfPositions (barePositions a ps) = (visitsOfPositions ps).map (Visit.bare a)
  | [] => rfl
  | p :: ps => by
    have hp := visitsOfPattern?_bare p
    have hps := visitsOfPositions_bare ps
    simp [barePositions, visitsOfPositions, hp, hps]

theorem visitsOfProperties_bare : ∀ ps : List PatternProperty,
    visitsOfProperties (bareProperties a ps) = (visitsOfProperties ps).map (Visit.bare a)
  | [] => rfl
  | p :: ps => by
    have hp := p.visits_bare
    have hps := visitsOfProperties_bare ps
    simp [bareProperties, visitsOfProperties, hp, hps]

theorem PatternProperty.visits_bare : ∀ p : PatternProperty,
    (p.bare a).visits = p.visits.map (Visit.bare a)
  | ⟨key, value, _⟩ => by
    have hk := key.visits_bare
    have hv := value.visits_bare
    simp [PatternProperty.bare, PatternProperty.visits, hk, hv]

theorem Block.visits_bare : ∀ b : Block, (b.bare a).visits = b.visits.map (Visit.bare a)
  | ⟨_, stmts⟩ => visitsOfStmts_bare stmts

theorem visitsOfBlock?_bare : ∀ b : Option Block,
    visitsOfBlock? (bareBlock? a b) = (visitsOfBlock? b).map (Visit.bare a)
  | none => rfl
  | some b => b.visits_bare

theorem visitsOfStmts_bare : ∀ ss : List Stmt,
    visitsOfStmts (bareStmts a ss) = (visitsOfStmts ss).map (Visit.bare a)
  | [] => rfl
  | s :: ss => by
    have hs := s.visits_bare
    have hss := visitsOfStmts_bare ss
    simp [bareStmts, visitsOfStmts, hs, hss]

theorem visitsOfStmt?_bare : ∀ s : Option Stmt,
    visitsOfStmt? (bareStmt? a s) = (visitsOfStmt? s).map (Visit.bare a)
  | none => rfl
  | some s => s.visits_bare

theorem Stmt.visits_bare : ∀ s : Stmt, (s.bare a).visits = s.visits.map (Visit.bare a)
  | ⟨_, form⟩ => by
    have h := form.visits_bare
    simp [Stmt.bare, Stmt.visits, Visit.bare, h]

theorem StmtForm.visits_bare : ∀ f : StmtForm, (f.bare a).visits = f.visits.map (Visit.bare a)
  | .breakStmt _ | .continueStmt _ | .empty | .debugger => rfl
  | .expr e | .throwStmt e => e.visits_bare
  | .decl decl => decl.visits_bare
  | .returnStmt value => visitsOfExpr?_bare value
  | .ifStmt test yes no => by
    have ht := test.visits_bare
    have hy := yes.visits_bare
    have hn := visitsOfStmt?_bare no
    simp [StmtForm.bare, StmtForm.visits, ht, hy, hn]
  | .forStmt start test update body => by
    have hs := start.visits_bare
    have ht := visitsOfExpr?_bare test
    have hu := visitsOfExpr?_bare update
    have hb := body.visits_bare
    simp [StmtForm.bare, StmtForm.visits, hs, ht, hu, hb]
  | .forIn target object body | .forOf _ target object body => by
    have ht := target.visits_bare
    have ho := object.visits_bare
    have hb := body.visits_bare
    simp [StmtForm.bare, StmtForm.visits, ht, ho, hb]
  | .whileStmt test body | .doWhile body test => by
    have ht := test.visits_bare
    have hb := body.visits_bare
    simp [StmtForm.bare, StmtForm.visits, ht, hb]
  | .block stmts => visitsOfStmts_bare stmts
  | .tryStmt block handler finalizer => by
    have hb := block.visits_bare
    have hh := handler.visits_bare
    have hf := visitsOfBlock?_bare finalizer
    simp [StmtForm.bare, StmtForm.visits, hb, hh, hf]
  | .switchStmt subject cases => by
    have hs := subject.visits_bare
    have hc := visitsOfCases_bare cases
    simp [StmtForm.bare, StmtForm.visits, hs, hc]
  | .labeled _ stmt => stmt.visits_bare

theorem Decl.visits_bare : ∀ d : Decl, (d.bare a).visits = d.visits.map (Visit.bare a)
  | .function fn => by
    have h := fn.visits_bare
    simp [Decl.bare, Decl.visits, Visit.bare, h]
  | .class cls => by
    have h := cls.visits_bare
    simp [Decl.bare, Decl.visits, Visit.bare, h]
  | .vars _ bindings => by
    have h := visitsOfBindings_bare bindings
    simp [Decl.bare, Decl.visits, Visit.bare, h]

theorem visitsOfBindings_bare : ∀ bs : List Binding,
    visitsOfBindings (bareBindings a bs) = (visitsOfBindings bs).map (Visit.bare a)
  | [] => rfl
  | b :: bs => by
    have hb := b.visits_bare
    have hbs := visitsOfBindings_bare bs
    simp [bareBindings, visitsOfBindings, hb, hbs]

theorem Binding.visits_bare : ∀ b : Binding, (b.bare a).visits = b.visits.map (Visit.bare a)
  | ⟨pattern, value⟩ => by
    have hp := pattern.visits_bare
    have hv := visitsOfExpr?_bare value
    simp [Binding.bare, Binding.visits, hp, hv]

theorem ForStart.visits_bare : ∀ s : ForStart, (s.bare a).visits = s.visits.map (Visit.bare a)
  | .nothing => rfl
  | .vars _ bindings => visitsOfBindings_bare bindings
  | .expr e => e.visits_bare

theorem ForTarget.visits_bare : ∀ t : ForTarget,
    (t.bare a).visits = t.visits.map (Visit.bare a)
  | .vars _ bindings => visitsOfBindings_bare bindings
  | .pattern p => p.visits_bare

theorem Handler.visits_bare : ∀ h : Handler, (h.bare a).visits = h.visits.map (Visit.bare a)
  | .nothing => rfl
  | .catch param body => by
    have hp := visitsOfPattern?_bare param
    have hb := body.visits_bare
    simp [Handler.bare, Handler.visits, hp, hb]

theorem visitsOfCases_bare : ∀ cs : List SwitchCase,
    visitsOfCases (bareCases a cs) = (visitsOfCases cs).map (Visit.bare a)
  | [] => rfl
  | c :: cs => by
    have hc := c.visits_bare
    have hcs := visitsOfCases_bare cs
    simp [bareCases, visitsOfCases, hc, hcs]

theorem SwitchCase.visits_bare : ∀ c : SwitchCase,
    (c.bare a).visits = c.visits.map (Visit.bare a)
  | ⟨test, body⟩ => by
    have ht := visitsOfExpr?_bare test
    have hb := visitsOfStmts_bare body
    simp [SwitchCase.bare, SwitchCase.visits, ht, hb]

end

theorem Item.visits_bare (item : Item) : (item.bare a).visits = item.visits.map (Visit.bare a) := by
  obtain ⟨span, form⟩ := item
  cases form with
  | importDecl decl => rfl
  | stmt stmt =>
    have h := stmt.visits_bare a
    simp [Item.bare, ItemForm.bare, Item.visits, Visit.bare, h]
  | exportDecl decl =>
    cases decl with
    | named | all => rfl
    | defaultExpr expr =>
      have h := expr.visits_bare a
      simp [Item.bare, ItemForm.bare, ExportDecl.bare, Item.visits, Visit.bare, h]
    | defaultDecl start decl | decl start decl =>
      have h := decl.visits_bare a
      simp [Item.bare, ItemForm.bare, ExportDecl.bare, Item.visits, Visit.bare, h]

/-- A walk through a bare tree visits the bare parts in the same order. -/
theorem Program.visits_bare (program : Program) :
    (program.bare a).visits = program.visits.map (Visit.bare a) := by
  have h : (program.items.map (Item.bare a)).flatMap Item.visits
      = (program.items.flatMap Item.visits).map (Visit.bare a) := by
    induction program.items with
    | nil => rfl
    | cons item items ih => simp [Item.visits_bare, ih]
  rw [Program.visits, Program.visits, Program.bare, h, List.map_cons]
  rfl

@[simp] theorem Item.isModuleSyntax_bare (item : Item) :
    (item.bare a).isModuleSyntax = item.isModuleSyntax := by
  obtain ⟨span, form⟩ := item
  cases form <;> rfl

@[simp] theorem Program.hasModuleSyntax_bare (program : Program) :
    (program.bare a).hasModuleSyntax = program.hasModuleSyntax := by
  simp [Program.hasModuleSyntax, Program.bare, List.any_map, Function.comp_def]

end ModuleBundler
