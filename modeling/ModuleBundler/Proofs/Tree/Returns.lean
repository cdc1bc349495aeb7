import ModuleBundler.Proofs.Tree.Bare

/-! What the code of a function returns: the values of its return statements, but for those that
stand in other functions inside it. -/
namespace ModuleBundler

mutual

/-- The values that the code of a statement itself returns, in the order of the text. -/
def Stmt.returns : Stmt → List (Option Expr)
  | ⟨_, form⟩ => form.returns

/-- The values that a statement of this form returns; expressions and declarations return none to
the function that they stand in. -/
def StmtForm.returns : StmtForm → List (Option Expr)
  | .returnStmt value => [value]
  | .ifStmt _ yes no => yes.returns ++ returnsOfStmt? no
  | .forStmt _ _ _ body | .forIn _ _ body | .forOf _ _ _ body | .whileStmt _ body
  | .doWhile body _ | .labeled _ body => body.returns
  | .block stmts => returnsOfStmts stmts
  | .tryStmt block handler finalizer =>
    block.returns ++ (handler.returns ++ returnsOfBlock? finalizer)
  | .switchStmt _ cases => returnsOfCases cases
  | .expr _ | .decl _ | .breakStmt _ | .continueStmt _ | .throwStmt _ | .empty | .debugger => []

/-- The values that statements one after the other return. -/
def returnsOfStmts : List Stmt → List (Option Expr)
  | [] => []
  | s :: ss => s.returns ++ returnsOfStmts ss

def returnsOfStmt? : Option Stmt → List (Option Expr)
  | none => []
  | some s => s.returns

/-- The values that the statements of a block return. -/
def Block.returns : Block → List (Option Expr)
  | ⟨_, stmts⟩ => returnsOfStmts stmts

def returnsOfBlock? : Option Block → List (Option Expr)
  | none => []
  | some b => b.returns

/-- The values that a handler returns. -/
def Handler.returns : Handler → List (Option Expr)
  | .nothing => []
  | .catch _ body => body.returns

def returnsOfCases : List SwitchCase → List (Option Expr)
  | [] => []
  | c :: cs => c.returns ++ returnsOfCases cs

/-- The values that a branch of a switch returns. -/
def SwitchCase.returns : SwitchCase → List (Option Expr)
  | ⟨_, body⟩ => returnsOfStmts body

end

@[simp] theorem returnsOfStmts_append (ss ss' : List Stmt) :
    returnsOfStmts (ss ++ ss') = returnsOfStmts ss ++ returnsOfStmts ss' := by
  induction ss with
  | nil => rfl
  | cons s ss ih => rw [List.cons_append, returnsOfStmts, returnsOfStmts, ih, List.append_assoc]

section Bare
variable {a : Answers}

mutual

theorem Stmt.returns_bare : ∀ s : Stmt, (s.bare a).returns = s.returns.map (bareExpr? a)
  | ⟨_, form⟩ => form.returns_bare

theorem StmtForm.returns_bare : ∀ f : StmtForm, (f.bare a).returns = f.returns.map (bareExpr? a)
  | .returnStmt _ => rfl
  | .ifStmt _ yes no => by
    simp [StmtForm.bare, StmtForm.returns, yes.returns_bare, returnsOfStmt?_bare no]
  | .forStmt _ _ _ body => body.returns_bare
  | .forIn _ _ body => body.returns_bare
  | .forOf _ _ _ body => body.returns_bare
  | .whileStmt _ body => body.returns_bare
  | .doWhile body _ => body.returns_bare
  | .labeled _ body => body.returns_bare
  | .block stmts => returnsOfStmts_bare stmts
  | .tryStmt block handler finalizer => by
    simp [StmtForm.bare, StmtForm.returns, block.returns_bare, handler.returns_bare,
      returnsOfBlock?_bare finalizer]
  | .switchStmt _ cases => returnsOfCases_bare cases
  | .expr _ => rfl
  | .decl _ => rfl
  | .breakStmt _ => rfl
  | .continueStmt _ => rfl
  | .throwStmt _ => rfl
  | .empty => rfl
  | .debugger => rfl

theorem returnsOfStmts_bare : ∀ ss : List Stmt,
    returnsOfStmts (bareStmts a ss) = (returnsOfStmts ss).map (bareExpr? a)
  | [] => rfl
  | s :: ss => by
    simp [bareStmts, returnsOfStmts, s.returns_bare, returnsOfStmts_bare ss]

theorem returnsOfStmt?_bare : ∀ s : Option Stmt,
    returnsOfStmt? (bareStmt? a s) = (returnsOfStmt? s).map (bareExpr? a)
  | none => rfl
  | some s => s.returns_bare

theorem Block.returns_bare : ∀ b : Block, (b.bare a).returns = b.returns.map (bareExpr? a)
  | ⟨_, stmts⟩ => returnsOfStmts_bare stmts

theorem returnsOfBlock?_bare : ∀ b : Option Block,
    returnsOfBlock? (bareBlock? a b) = (returnsOfBlock? b).map (bareExpr? a)
  | none => rfl
  | some b => b.returns_bare

theorem Handler.returns_bare : ∀ h : Handler, (h.bare a).returns = h.returns.map (bareExpr? a)
  | .nothing => rfl
  | .catch _ body => body.returns_bare

theorem returnsOfCases_bare : ∀ cs : List SwitchCase,
    returnsOfCases (bareCases a cs) = (returnsOfCases cs).map (bareExpr? a)
  | [] => rfl
  | c :: cs => by
    simp [bareCases, returnsOfCases, c.returns_bare, returnsOfCases_bare cs]

theorem SwitchCase.returns_bare : ∀ c : SwitchCase,
    (c.bare a).returns = c.returns.map (bareExpr? a)
  | ⟨_, body⟩ => returnsOfStmts_bare body

end

end Bare
end ModuleBundler
