import ModuleBundler.Proofs.Tree.Part

/-! Where an `in` that is an operator stands open: in no brackets between which `in` is an operator
even in the head of a loop. -/
namespace ModuleBundler

/-! ## The parts that stand open in a part -/

/-- The value of a member of an object literal stands open, its key and its method do not. -/
@[simp] def ObjectMember.openParts : ObjectMember → List Visit
  | .property _ value _ | .spread value => [.expr value]
  | .method .. => []

/-- What a class extends stands open, its members do not. -/
@[simp] def ClassDef.openParts (cls : ClassDef) : List Visit := cls.base.toList.map .expr

/-- The parts of an expression that stand open in it. Parentheses, arguments, indices, functions,
the substitutions of templates and the middle of a conditional do not, the elements of an array,
the parameters of an arrow function and its body do. -/
@[simp] def ExprForm.openParts : ExprForm → List Visit
  | .number _ | .bigInt _ | .string _ | .boolean _ | .null | .regExp .. | .ident _
  | .metaProperty .. | .thisExpr | .superExpr => []
  | .paren _ | .template .. | .functionExpr _ => []
  | .binary _ left right => [.expr left, .expr right]
  | .unary _ operand | .awaitExpr operand | .spread operand => [.expr operand]
  | .assignment _ target value => [.expr target, .expr value]
  | .call _ callee _ | .newCall callee _ => [.expr callee]
  | .member _ base _ | .index _ base _ => [.expr base]
  | .taggedTemplate tag _ _ => [.expr tag]
  | .array elements => (elements.filterMap id).map .expr
  | .object members => members.flatMap ObjectMember.openParts
  | .arrow _ params body => paramParts params ++ [.expr body]
  | .arrowBlock _ params body => paramParts params ++ body.parts
  | .classExpr cls => cls.openParts
  | .conditional test _ no => [.expr test, .expr no]
  | .yieldExpr operand _ => operand.toList.map .expr
  | .sequence exprs => exprs.map .expr

/-- The parts of a pattern that stand open in it: all but the keys. -/
@[simp] def PatternForm.openParts : PatternForm → List Visit
  | .ident _ => []
  | .array elements rest => (elements.filterMap id ++ rest.toList).map .pattern
  | .object properties rest => (properties.map (·.value) ++ rest.toList).map .pattern
  | .withDefault p value => [.pattern p, .expr value]
  | .target e => [.expr e]

/-- The parts of a declaration that stand open in it. -/
@[simp] def Decl.openParts : Decl → List Visit
  | .function _ => []
  | .class cls => cls.openParts
  | .vars _ bindings => bindings.flatMap Binding.parts

/-- The parts of a statement that stand open in it: all but what stands in parentheses. -/
@[simp] def StmtForm.openParts : StmtForm → List Visit
  | .expr e | .throwStmt e => [.expr e]
  | .decl d => [.decl d]
  | .returnStmt value => value.toList.map .expr
  | .ifStmt _ yes no => .stmt yes :: no.toList.map .stmt
  | .forStmt _ _ _ body | .forIn _ _ body | .forOf _ _ _ body | .whileStmt _ body
  | .doWhile body _ | .labeled _ body => [.stmt body]
  | .block stmts => stmts.map .stmt
  | .tryStmt body handler finalizer =>
    body.parts ++ (handler.parts ++ finalizer.toList.flatMap Block.parts)
  | .switchStmt _ cases => cases.flatMap SwitchCase.parts
  | .breakStmt _ | .continueStmt _ | .empty | .debugger => []

/-- The expression is an `in` between two operands. -/
@[simp] def ExprForm.isIn : ExprForm → Bool
  | .binary .isIn _ _ => true
  | _ => false

namespace Visit

/-- The parts that stand open in a part. -/
def openParts : Visit → List Visit
  | .stmt s => s.form.openParts
  | .decl d => d.openParts
  | .expr e => e.form.openParts
  | .pattern p => p.form.openParts
  | .class cls => cls.openParts
  | .program _ | .item _ | .function _ => []

/-- The part is an `in` between two operands. -/
def isIn : Visit → Bool
  | .expr e => e.form.isIn
  | _ => false

/-- An `in` between two operands stands open in a part. -/
inductive OpenIn : Visit → Prop where
  | here {v : Visit} : v.isIn = true → OpenIn v
  | part {u v : Visit} : u ∈ v.openParts → OpenIn u → OpenIn v

end Visit

/-- An `in` between two operands stands open in one of some parts. -/
def AnyOpenIn (vs : List Visit) : Prop := ∃ v ∈ vs, v.OpenIn

/-- An `in` between two operands stands open in an expression of this form. -/
@[simp] def ExprForm.OpenIn (f : ExprForm) : Prop := f.isIn = true ∨ AnyOpenIn f.openParts

section AnyOpenIn
variable {v : Visit} {vs ws : List Visit} {α : Type} {as : List α}

@[simp] theorem anyOpenIn_nil : ¬ AnyOpenIn [] := by simp [AnyOpenIn]

@[simp] theorem anyOpenIn_cons : AnyOpenIn (v :: vs) ↔ v.OpenIn ∨ AnyOpenIn vs := by
  simp [AnyOpenIn]

@[simp] theorem anyOpenIn_append : AnyOpenIn (vs ++ ws) ↔ AnyOpenIn vs ∨ AnyOpenIn ws := by
  simp [AnyOpenIn, or_and_right, exists_or]

@[simp] theorem anyOpenIn_map {f : α → Visit} :
    AnyOpenIn (as.map f) ↔ ∃ a ∈ as, (f a).OpenIn := by simp [AnyOpenIn]

@[simp] theorem anyOpenIn_flatMap {f : α → List Visit} :
    AnyOpenIn (as.flatMap f) ↔ ∃ a ∈ as, AnyOpenIn (f a) := by
  simp only [AnyOpenIn, List.mem_flatMap]
  constructor
  · rintro ⟨v, ⟨a, ha, hv⟩, h⟩
    exact ⟨a, ha, v, hv, h⟩
  · rintro ⟨a, ha, v, hv, h⟩
    exact ⟨v, ⟨a, ha, hv⟩, h⟩

theorem Visit.openIn_iff : v.OpenIn ↔ v.isIn = true ∨ AnyOpenIn v.openParts := by
  constructor
  · rintro (h | ⟨hu, h⟩)
    · exact .inl h
    · exact .inr ⟨_, hu, h⟩
  · rintro (h | ⟨u, hu, h⟩)
    · exact .here h
    · exact .part hu h

end AnyOpenIn

namespace Visit

@[simp] theorem openIn_expr {span : Span} {f : ExprForm} :
    (expr ⟨span, f⟩).OpenIn ↔ f.OpenIn := openIn_iff

@[simp] theorem openIn_pattern {span : Span} {f : PatternForm} :
    (pattern ⟨span, f⟩).OpenIn ↔ AnyOpenIn f.openParts := by simp [openIn_iff, isIn, openParts]

@[simp] theorem openIn_stmt {span : Span} {f : StmtForm} :
    (stmt ⟨span, f⟩).OpenIn ↔ AnyOpenIn f.openParts := by simp [openIn_iff, isIn, openParts]

@[simp] theorem openIn_decl {d : Decl} : (decl d).OpenIn ↔ AnyOpenIn d.openParts := by
  simp [openIn_iff, isIn, openParts]

end Visit
end ModuleBundler
