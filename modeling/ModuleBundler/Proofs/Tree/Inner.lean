import ModuleBundler.Tree.Visit

/-! A walk through a statement comes upon no top-level item. -/
namespace ModuleBundler

/-- The part stands inside a top-level item. -/
def Visit.isInner : Visit → Bool
  | .program _ | .item _ => false
  | _ => true

mutual

theorem Expr.visits_inner : ∀ e : Expr, e.visits.all Visit.isInner = true
  | ⟨_, form⟩ => by rw [Expr.visits, List.all_cons, form.visits_inner]; rfl

theorem ExprForm.visits_inner : ∀ f : ExprForm, f.visits.all Visit.isInner = true
  | .number _ | .bigInt _ | .string _ | .boolean _ | .null | .regExp .. | .ident _
  | .metaProperty .. | .thisExpr | .superExpr => rfl
  | .unary _ e | .awaitExpr e | .paren e | .spread e | .member _ e _ => e.visits_inner
  | .binary _ e e' | .assignment _ e e' | .index _ e e' => by
    rw [ExprForm.visits, List.all_append, e.visits_inner, e'.visits_inner]; rfl
  | .call _ e es | .newCall e es | .taggedTemplate e _ es => by
    rw [ExprForm.visits, List.all_append, e.visits_inner, visitsOfExprs_inner es]; rfl
  | .template _ es | .sequence es => visitsOfExprs_inner es
  | .array es => visitsOfElements_inner es
  | .object ms => visitsOfMembers_inner ms
  | .arrow _ ps body => by
    rw [ExprForm.visits, List.all_append, visitsOfParams_inner ps, body.visits_inner]; rfl
  | .arrowBlock _ ps body => by
    rw [ExprForm.visits, List.all_append, visitsOfParams_inner ps, body.visits_inner]; rfl
  | .functionExpr fn => fn.visits_inner
  | .classExpr cls => cls.visits_inner
  | .conditional test yes no => by
    rw [ExprForm.visits, List.all_append, List.all_append, test.visits_inner, yes.visits_inner,
      no.visits_inner]; rfl
  | .yieldExpr e _ => visitsOfExpr?_inner e

theorem visitsOfExprs_inner : ∀ es : List Expr, (visitsOfExprs es).all Visit.isInner = true
  | [] => rfl
  | e :: es => by rw [visitsOfExprs, List.all_append, e.visits_inner, visitsOfExprs_inner es]; rfl

theorem visitsOfExpr?_inner : ∀ e : Option Expr, (visitsOfExpr? e).all Visit.isInner = true
  | none => rfl
  | some e => e.visits_inner

theorem visitsOfElements_inner : ∀ es : List (Option Expr),
    (visitsOfElements es).all Visit.isInner = true
  | [] => rfl
  | e :: es => by
    rw [visitsOfElements, List.all_append, visitsOfExpr?_inner e, visitsOfElements_inner es]; rfl

theorem visitsOfMembers_inner : ∀ ms : List ObjectMember,
    (visitsOfMembers ms).all Visit.isInner = true
  | [] => rfl
  | m :: ms => by
    rw [visitsOfMembers, List.all_append, m.visits_inner, visitsOfMembers_inner ms]; rfl

theorem ObjectMember.visits_inner : ∀ m : ObjectMember, m.visits.all Visit.isInner = true
  | .property key value _ => by
    rw [ObjectMember.visits, List.all_append, key.visits_inner, value.visits_inner]; rfl
  | .method key _ fn => by
    rw [ObjectMember.visits, List.all_append, key.visits_inner, fn.visits_inner]; rfl
  | .spread value => value.visits_inner

theorem PropertyKey.visits_inner : ∀ k : PropertyKey, k.visits.all Visit.isInner = true
  | .computed value => value.visits_inner
  | .name _ | .string _ | .number _ | .privateName _ => rfl

theorem visitsOfParams_inner : ∀ ps : List Param, (visitsOfParams ps).all Visit.isInner = true
  | [] => rfl
  | p :: ps => by
    rw [visitsOfParams, List.all_append, p.visits_inner, visitsOfParams_inner ps]; rfl

theorem Param.visits_inner : ∀ p : Param, p.visits.all Visit.isInner = true
  | ⟨pattern, _⟩ => pattern.visits_inner

theorem FunctionDef.visits_inner : ∀ fn : FunctionDef, fn.visits.all Visit.isInner = true
  | ⟨_, ps, body, _, _⟩ => by
    rw [FunctionDef.visits, List.all_cons, List.all_append, visitsOfParams_inner ps,
      body.visits_inner]; rfl

theorem ClassDef.visits_inner : ∀ cls : ClassDef, cls.visits.all Visit.isInner = true
  | ⟨_, base, ms⟩ => by
    rw [ClassDef.visits, List.all_cons, List.all_append, visitsOfExpr?_inner base,
      visitsOfClassMembers_inner ms]; rfl

theorem visitsOfClassMembers_inner : ∀ ms : List ClassMember,
    (visitsOfClassMembers ms).all Visit.isInner = true
  | [] => rfl
  | m :: ms => by
    rw [visitsOfClassMembers, List.all_append, m.visits_inner, visitsOfClassMembers_inner ms]; rfl

theorem ClassMember.visits_inner : ∀ m : ClassMember, m.visits.all Visit.isInner = true
  | .constructorDef ps body => by
    rw [ClassMember.visits, List.all_append, visitsOfParams_inner ps, body.visits_inner]; rfl
  | .method key _ fn _ => by
    rw [ClassMember.visits, List.all_append, key.visits_inner, fn.visits_inner]; rfl
  | .field key value _ => by
    rw [ClassMember.visits, List.all_append, key.visits_inner, visitsOfExpr?_inner value]; rfl
  | .staticBlock body => body.visits_inner

theorem Pattern.visits_inner : ∀ p : Pattern, p.visits.all Visit.isInner = true
  | ⟨_, form⟩ => by rw [Pattern.visits, List.all_cons, form.visits_inner]; rfl

theorem PatternForm.visits_inner : ∀ f : PatternForm, f.visits.all Visit.isInner = true
  | .ident _ => rfl
  | .array ps rest => by
    rw [PatternForm.visits, List.all_append, visitsOfPositions_inner ps,
      visitsOfPattern?_inner rest]
    rfl
  | .object ps rest => by
    rw [PatternForm.visits, List.all_append, visitsOfProperties_inner ps,
      visitsOfPattern?_inner rest]; rfl
  | .withDefault pattern value => by
    rw [PatternForm.visits, List.all_append, pattern.visits_inner, value.visits_inner]; rfl
  | .target e => e.visits_inner

theorem visitsOfPattern?_inner : ∀ p : Option Pattern,
    (visitsOfPattern? p).all Visit.isInner = true
  | none => rfl
  | some p => p.visits_inner

theorem visitsOfPositions_inner : ∀ ps : List (Option Pattern),
    (visitsOfPositions ps).all Visit.isInner = true
  | [] => rfl
  | p :: ps => by
    rw [visitsOfPositions, List.all_append, visitsOfPattern?_inner p, visitsOfPositions_inner ps]
    rfl

theorem visitsOfProperties_inner : ∀ ps : List PatternProperty,
    (visitsOfProperties ps).all Visit.isInner = true
  | [] => rfl
  | p :: ps => by
    rw [visitsOfProperties, List.all_append, p.visits_inner, visitsOfProperties_inner ps]; rfl

theorem PatternProperty.visits_inner : ∀ p : PatternProperty, p.visits.all Visit.isInner = true
  | ⟨key, value, _⟩ => by
    rw [PatternProperty.visits, List.all_append, key.visits_inner, value.visits_inner]; rfl

theorem Block.visits_inner : ∀ b : Block, b.visits.all Visit.isInner = true
  | ⟨_, ss⟩ => visitsOfStmts_inner ss

theorem visitsOfBlock?_inner : ∀ b : Option Block, (visitsOfBlock? b).all Visit.isInner = true
  | none => rfl
  | some b => b.visits_inner

theorem visitsOfStmts_inner : ∀ ss : List Stmt, (visitsOfStmts ss).all Visit.isInner = true
  | [] => rfl
  | s :: ss => by rw [visitsOfStmts, List.all_append, s.visits_inner, visitsOfStmts_inner ss]; rfl

theorem visitsOfStmt?_inner : ∀ s : Option Stmt, (visitsOfStmt? s).all Visit.isInner = true
  | none => rfl
  | some s => s.visits_inner

theorem Stmt.visits_inner : ∀ s : Stmt, s.visits.all Visit.isInner = true
  | ⟨_, form⟩ => by rw [Stmt.visits, List.all_cons, form.visits_inner]; rfl

theorem StmtForm.visits_inner : ∀ f : StmtForm, f.visits.all Visit.isInner = true
  | .expr e | .throwStmt e => e.visits_inner
  | .decl d => d.visits_inner
  | .returnStmt e => visitsOfExpr?_inner e
  | .ifStmt test yes no => by
    rw [StmtForm.visits, List.all_append, List.all_append, test.visits_inner, yes.visits_inner,
      visitsOfStmt?_inner no]; rfl
  | .forStmt start test update body => by
    rw [StmtForm.visits, List.all_append, List.all_append, List.all_append, start.visits_inner,
      visitsOfExpr?_inner test, visitsOfExpr?_inner update, body.visits_inner]; rfl
  | .forIn target e body | .forOf _ target e body => by
    rw [StmtForm.visits, List.all_append, List.all_append, target.visits_inner, e.visits_inner,
      body.visits_inner]; rfl
  | .whileStmt test body | .doWhile body test => by
    rw [StmtForm.visits, List.all_append, test.visits_inner, body.visits_inner]; rfl
  | .block ss => visitsOfStmts_inner ss
  | .tryStmt block handler finalizer => by
    rw [StmtForm.visits, List.all_append, List.all_append, block.visits_inner,
      handler.visits_inner, visitsOfBlock?_inner finalizer]; rfl
  | .switchStmt subject cases => by
    rw [StmtForm.visits, List.all_append, subject.visits_inner, visitsOfCases_inner cases]; rfl
  | .labeled _ s => s.visits_inner
  | .breakStmt _ | .continueStmt _ | .empty | .debugger => rfl

theorem Decl.visits_inner : ∀ d : Decl, d.visits.all Visit.isInner = true
  | .function fn => by rw [Decl.visits, List.all_cons, fn.visits_inner]; rfl
  | .class cls => by rw [Decl.visits, List.all_cons, cls.visits_inner]; rfl
  | .vars _ bs => by rw [Decl.visits, List.all_cons, visitsOfBindings_inner bs]; rfl

theorem visitsOfBindings_inner : ∀ bs : List Binding,
    (visitsOfBindings bs).all Visit.isInner = true
  | [] => rfl
  | b :: bs => by
    rw [visitsOfBindings, List.all_append, b.visits_inner, visitsOfBindings_inner bs]; rfl

theorem Binding.visits_inner : ∀ b : Binding, b.visits.all Visit.isInner = true
  | ⟨pattern, value⟩ => by
    rw [Binding.visits, List.all_append, pattern.visits_inner, visitsOfExpr?_inner value]; rfl

theorem ForStart.visits_inner : ∀ s : ForStart, s.visits.all Visit.isInner = true
  | .nothing => rfl
  | .vars _ bs => visitsOfBindings_inner bs
  | .expr e => e.visits_inner

theorem ForTarget.visits_inner : ∀ t : ForTarget, t.visits.all Visit.isInner = true
  | .vars _ bs => visitsOfBindings_inner bs
  | .pattern p => p.visits_inner

theorem Handler.visits_inner : ∀ h : Handler, h.visits.all Visit.isInner = true
  | .nothing => rfl
  | .catch param body => by
    rw [Handler.visits, List.all_append, visitsOfPattern?_inner param, body.visits_inner]; rfl

theorem visitsOfCases_inner : ∀ cs : List SwitchCase, (visitsOfCases cs).all Visit.isInner = true
  | [] => rfl
  | c :: cs => by rw [visitsOfCases, List.all_append, c.visits_inner, visitsOfCases_inner cs]; rfl

theorem SwitchCase.visits_inner : ∀ c : SwitchCase, c.visits.all Visit.isInner = true
  | ⟨test, ss⟩ => by
    rw [SwitchCase.visits, List.all_append, visitsOfExpr?_inner test, visitsOfStmts_inner ss]; rfl

end

/-- A walk through a module without module syntax comes upon no item that imports or exports. -/
theorem Program.isModuleSyntax_of_visits {program : Program} {item : Item}
    (hp : program.hasModuleSyntax = false) (h : Visit.item item ∈ program.visits) :
    item.isModuleSyntax = false := by
  have hi : ∀ i ∈ program.items, i.isModuleSyntax = false := by
    simpa [hasModuleSyntax] using hp
  have h : Visit.item item ∈ program.items.flatMap Item.visits := by simpa [visits] using h
  obtain ⟨⟨span, form⟩, hmem, hv⟩ := List.mem_flatMap.mp h
  have hform := hi _ hmem
  cases form with
  | stmt s =>
    rcases List.mem_cons.mp hv with hv | hv
    · rw [Visit.item.inj hv]
      exact hform
    · have := List.all_eq_true.mp s.visits_inner _ hv
      cases this
  | _ => cases hform

end ModuleBundler
