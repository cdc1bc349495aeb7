import ModuleBundler.Grammar.Module
import ModuleBundler.Proofs.Grammar.ReadingExpression
import ModuleBundler.Proofs.Tree.Target

/-! The account of what the readers of declarations and statements read, and with them the grammars
of every depth. -/
namespace ModuleBundler.Grammar
open ModuleBundler.Parser ModuleBundler.Outline

namespace Accounts
variable {g : Grammar} (hg : g.Accounts) {b : Bool} {c c' c₀ : Cursor}
include hg

/-! ## Declarations -/

theorem binding {bi : Binding} (h : g.binding b c = .ok bi c') :
    Takes true c bi.visits bi.outlines c' := by
  simp only [Grammar.binding, bind_ok, pure_ok] at h
  obtain ⟨p, c₁, hp, e, c₂, he, rfl, rfl⟩ := h
  exact (hg.pattern hp).takes.trans (exprAfter (fun _ => rfl) hg.assignment he)

omit hg in
theorem neutral_of_varKind {kind : TokenKind} {v : VarKind} (h : VarKind.ofToken? kind = some v) :
    kind ≠ .eof ∧ Bracket.Neutral kind := by
  unfold VarKind.ofToken? at h
  split at h <;> cases h <;> exact ⟨by rintro ⟨⟩, fun _ => rfl⟩

theorem bindings {r : VarKind × List Binding} (h : g.bindings b c = .ok r c') :
    Takes true c (visitsOfBindings r.2) (outlinesOfBindings r.2) c' := by
  simp only [Grammar.bindings, bind_ok, get_ok] at h
  obtain ⟨_, _, ⟨rfl, rfl⟩, h⟩ := h
  generalize hk : VarKind.ofToken? c.current.kind = kind? at h
  split at h
  · cases fail_ok h
  · obtain ⟨he, hn⟩ := neutral_of_varKind hk
    simp only [bind_ok, advance_ok, pure_ok] at h
    obtain ⟨_, _, ⟨-, rfl⟩, first, c₁, hf, others, c₂, ho, rfl, rfl⟩ := h
    have r₁ : Takes true c [] [] c.next := .next (by simpa [Cursor.atEnd] using he) (hn [])
    have r₃ : Takes false c₁ (visitsOfBindings others) (outlinesOfBindings others) c₂ := by
      rw [visits_bindings, outlines_bindings]
      refine many_takes (m := true) Binding.visits Binding.outlines (fun h => ?_) ho
      obtain ⟨_, d, hc, hb⟩ := bind_ok.mp h
      exact Reads.trans (.consumeMark hc rfl) (hg.binding hb)
    exact r₁.trans ((hg.binding hf).trans r₃)

theorem varDecl {d : Decl} (h : g.varDecl b c = .ok d c') :
    Takes true c d.visits d.outlines c' := by
  simp only [Grammar.varDecl, bind_ok] at h
  obtain ⟨⟨kind, bs⟩, c₁, h₁, _, c₂, h₂, h⟩ := h
  obtain ⟨rfl, rfl⟩ := pure_ok.mp h
  exact ((hg.bindings h₁).past (semicolon_takes h₂)).visit (by simp)

theorem declaration? {nameOptional : Bool} {d : Decl}
    (h : g.declaration? nameOptional b c = .ok (some d) c') :
    Takes true c d.visits d.outlines c' := by
  simp only [Grammar.declaration?, bind_ok, get_ok, if_apply] at h
  obtain ⟨_, _, ⟨rfl, rfl⟩, h⟩ := h
  split at h
  · obtain ⟨fn, c₁, hf, h⟩ := bind_ok.mp h
    obtain ⟨hd, rfl⟩ := pure_ok.mp h
    cases hd
    exact (hg.function hf).visit (by simp)
  split at h
  · obtain ⟨cls, c₁, hc, h⟩ := bind_ok.mp h
    obtain ⟨hd, rfl⟩ := pure_ok.mp h
    cases hd
    exact (hg.classDef hc).visit (by simp)
  split at h
  · obtain ⟨d, c₁, hv, h⟩ := bind_ok.mp h
    obtain ⟨hd, rfl⟩ := pure_ok.mp h
    cases hd
    exact hg.varDecl hv
  · cases (pure_ok.mp h).1

omit hg in
theorem declaration?_none {nameOptional : Bool}
    (h : g.declaration? nameOptional b c = .ok none c') : c' = c := by
  simp only [Grammar.declaration?, bind_ok, get_ok, if_apply] at h
  obtain ⟨_, _, ⟨rfl, rfl⟩, h⟩ := h
  split at h
  · obtain ⟨_, _, -, h⟩ := bind_ok.mp h
    cases (pure_ok.mp h).1
  split at h
  · obtain ⟨_, _, -, h⟩ := bind_ok.mp h
    cases (pure_ok.mp h).1
  split at h
  · obtain ⟨_, _, -, h⟩ := bind_ok.mp h
    cases (pure_ok.mp h).1
  · exact (pure_ok.mp h).2.symm

/-! ## Branches and loops -/

theorem condition {e : Expr} (h : g.condition b c = .ok e c') :
    Takes true c e.visits [e.outline] c' := by
  simp only [Grammar.condition, bind_ok, pure_ok] at h
  obtain ⟨_, c₁, h₁, e, c₂, he, _, c₃, h₃, rfl, rfl⟩ := h
  exact .between h₁ rfl (hg.enclosed he).takes h₃ rfl

theorem ifStatement {f : StmtForm} (h : g.ifStatement b c = .ok f c') :
    Takes true c f.visits f.outlines c' := by
  simp only [Grammar.ifStatement, bind_ok, pure_ok] at h
  obtain ⟨_, c₁, h₁, test, c₂, h₂, yes, c₃, h₃, no, c₄, h₄, rfl, rfl⟩ := h
  have r₁ : Takes true c [] [] c₁ := .consumeKeyword h₁
  have r₄ : Takes false c₃ (visitsOfStmt? no) (outlinesOfStmt? no) c₄ := by
    have r := after_takes Stmt.visits (fun s => [s.outline]) (fun _ => rfl)
      (fun h => (hg.statement h).takes) h₄
    cases no <;> exact r
  exact r₁.trans ((hg.condition h₂).trans ((hg.statement h₃).takes.trans r₄))

theorem forStart {f : ForStart} (h : g.forStart b c = .ok f c') :
    Takes false c f.visits f.outlines c' := by
  simp only [Grammar.forStart, bind_ok, get_ok, if_apply] at h
  obtain ⟨_, _, ⟨rfl, rfl⟩, h⟩ := h
  split at h
  · obtain ⟨rfl, rfl⟩ := pure_ok.mp h
    exact .refl
  split at h
  · obtain ⟨⟨kind, bs⟩, c₁, hb, h⟩ := bind_ok.mp h
    obtain ⟨rfl, rfl⟩ := pure_ok.mp h
    exact (hg.bindings hb).weaken
  · obtain ⟨e, c₁, he, h⟩ := bind_ok.mp h
    obtain ⟨rfl, rfl⟩ := pure_ok.mp h
    exact (commaSequence hg.assignment he).takes.weaken

omit hg in
/-- Parentheses around a target are dropped; what is left of it still nests. -/
theorem forTarget {start : ForStart} {t : ForTarget} (h : forTarget start b c = .ok t c') :
    (∀ T : Tally, T.count t.visits ≤ T.count start.visits) ∧
      Refines start.outlines t.outlines ∧ c' = c := by
  cases start with
  | nothing => cases fail_ok h
  | vars kind bs =>
    obtain ⟨rfl, rfl⟩ := pure_ok.mp h
    exact ⟨fun _ => Nat.le_refl _, .refl _, rfl⟩
  | expr e =>
    simp only [Grammar.forTarget] at h
    generalize hp : e.toPattern = p at h
    split at h
    · obtain ⟨rfl, rfl⟩ := pure_ok.mp h
      refine ⟨fun T => Expr.countP_toPattern (fun p => ?_) e hp, e.refines_toPattern hp, rfl⟩
      cases T <;> rfl
    · cases throw_ok h

theorem exprBefore {mark : Punctuator} {e : Option Expr} (h : g.exprBefore mark b c = .ok e c') :
    Takes false c (visitsOfExpr? e) (outlinesOfExpr? e) c' := by
  simp only [Grammar.exprBefore, bind_ok, get_ok, if_apply] at h
  obtain ⟨_, _, ⟨rfl, rfl⟩, h⟩ := h
  split at h
  · obtain ⟨rfl, rfl⟩ := pure_ok.mp h
    exact .refl
  · obtain ⟨e, he, rfl⟩ := map_ok.mp h
    exact (hg.enclosed he).takes.weaken

theorem forTail {start : ForStart} {f : StmtForm}
    (hs : Reads true [] c₀ start.visits start.outlines [.paren] c)
    (h : g.forTail start b c = .ok f c') : Takes true c₀ f.visits f.outlines c' := by
  simp only [Grammar.forTail, bind_ok, pure_ok] at h
  obtain ⟨_, c₁, h₁, test, c₂, h₂, _, c₃, h₃, update, c₄, h₄, _, c₅, h₅, body, c₆, h₆, rfl,
    rfl⟩ := h
  have r₁ : Reads true [.paren] c [] [] [.paren] c₁ := .consumeMark h₁ rfl
  have r₃ : Reads true [.paren] c₂ [] [] [.paren] c₃ := .consumeMark h₃ rfl
  have r₅ : Reads true [.paren] c₄ [] [] [] c₅ := .consumeMark h₅ rfl
  exact hs.trans (r₁.trans ((hg.exprBefore h₂).within.trans (r₃.trans
    ((hg.exprBefore h₄).within.trans (r₅.trans (hg.statement h₆).takes)))))

theorem forStatement {f : StmtForm} (h : g.forStatement b c = .ok f c') :
    Takes true c f.visits f.outlines c' := by
  simp only [Grammar.forStatement, bind_ok, withoutIn_apply, get_ok, if_apply] at h
  obtain ⟨_, c₁, h₁, isAwait, c₂, h₂, _, c₃, h₃, start, c₄, h₄, _, _, ⟨rfl, rfl⟩, h⟩ := h
  have r₁ : Takes true c [] [] c₁ := .consumeKeyword h₁
  have r₂ : Takes false c₁ [] [] c₂ := .eat h₂ fun _ => rfl
  have r₃ : Reads true [] c₂ [] [] [.paren] c₃ := .consumeMark h₃ rfl
  have r : Reads true [] c start.visits start.outlines [.paren] c₄ :=
    r₁.trans (r₂.trans (r₃.trans (hg.forStart h₄).within))
  split at h
  · next hs =>
    simp only [bind_ok, advance_ok, pure_ok] at h
    obtain ⟨target, d, ht, _, _, ⟨-, rfl⟩, e, d₁, he, _, d₂, hc, body, d₃, hb, rfl, rfl⟩ := h
    obtain ⟨hv, ho, rfl⟩ := forTarget ht
    have q₁ : Reads true [.paren] d [] [] [.paren] d.next := .next_of_sees hs rfl
    have q₃ : Reads true [.paren] d₁ [] [] [] d₂ := .consumeMark hc rfl
    exact ((r.mono hv).refines ho).trans
      (q₁.trans ((hg.enclosed he).takes.within.trans (q₃.trans (hg.statement hb).takes)))
  split at h
  · next hs =>
    simp only [bind_ok, advance_ok, withIn_apply, pure_ok] at h
    obtain ⟨target, d, ht, _, _, ⟨-, rfl⟩, e, d₁, he, _, d₂, hc, body, d₃, hb, rfl, rfl⟩ := h
    obtain ⟨hv, ho, rfl⟩ := forTarget ht
    have q₁ : Reads true [.paren] d [] [] [.paren] d.next := .next_of_seesWord hs
    have q₃ : Reads true [.paren] d₁ [] [] [] d₂ := .consumeMark hc rfl
    exact ((r.mono hv).refines ho).trans
      (q₁.trans ((hg.assignment he).takes.within.trans (q₃.trans (hg.statement hb).takes)))
  · exact hg.forTail r h

theorem whileStatement {f : StmtForm} (h : g.whileStatement b c = .ok f c') :
    Takes true c f.visits f.outlines c' := by
  simp only [Grammar.whileStatement, bind_ok, pure_ok] at h
  obtain ⟨_, c₁, h₁, test, c₂, h₂, body, c₃, h₃, rfl, rfl⟩ := h
  have r₁ : Takes true c [] [] c₁ := .consumeKeyword h₁
  exact r₁.trans ((hg.condition h₂).trans (hg.statement h₃).takes)

theorem doWhileStatement {f : StmtForm} (h : g.doWhileStatement b c = .ok f c') :
    Takes true c f.visits f.outlines c' := by
  simp only [Grammar.doWhileStatement, bind_ok, pure_ok] at h
  obtain ⟨_, c₁, h₁, body, c₂, h₂, _, c₃, h₃, test, c₄, h₄, _, c₅, h₅, rfl, rfl⟩ := h
  have r₁ : Takes true c [] [] c₁ := .consumeKeyword h₁
  have r₃ : Takes true c₂ [] [] c₃ := .consumeKeyword h₃
  have r : Takes true c (body.visits ++ test.visits) [body.outline, test.outline] c₅ :=
    r₁.trans ((hg.statement h₂).takes.trans
      (r₃.trans ((hg.condition h₄).past (semicolon_takes h₅))))
  -- a walk comes upon the test first
  refine r.mono fun T => Nat.le_of_eq ?_
  rw [StmtForm.visits, Tally.count_append, Tally.count_append, Nat.add_comm]

theorem caseTest {e : Option Expr} (h : g.caseTest b c = .ok e c') :
    Takes true c (visitsOfExpr? e) (outlinesOfExpr? e) c' := by
  simp only [Grammar.caseTest, bind_ok, if_apply] at h
  obtain ⟨r, c₁, hr, h⟩ := h
  split at h
  · next ht =>
    subst ht
    obtain ⟨e, he, rfl⟩ := map_ok.mp h
    exact Reads.trans (.eat_true hr rfl) (commaSequence hg.assignment he).takes
  · next hf =>
    obtain rfl := eat_stays hr hf
    obtain ⟨r, c₂, hr, h⟩ := bind_ok.mp h
    rw [if_apply] at h
    split at h
    · next ht =>
      subst ht
      obtain ⟨rfl, rfl⟩ := pure_ok.mp h
      exact .eat_true hr rfl
    · cases fail_ok h

theorem switchCase {k : SwitchCase} (h : g.switchCase b c = .ok k c') :
    Takes true c k.visits k.outlines c' := by
  simp only [Grammar.switchCase, bind_ok, pure_ok] at h
  obtain ⟨test, c₁, h₁, _, c₂, h₂, body, c₃, h₃, rfl, rfl⟩ := h
  have r₂ : Takes true c₁ [] [] c₂ := .consumeMark h₂ rfl
  have r₃ := many_takes Stmt.visits (fun s => [s.outline]) (fun h => (hg.statement h).takes) h₃
  rw [SwitchCase.visits, SwitchCase.outlines, visits_stmts, outlines_stmts]
  exact (hg.caseTest h₁).trans (r₂.trans r₃)

theorem switchStatement {f : StmtForm} (h : g.switchStatement b c = .ok f c') :
    Takes true c f.visits f.outlines c' := by
  simp only [Grammar.switchStatement, bind_ok, pure_ok] at h
  obtain ⟨_, c₁, h₁, subject, c₂, h₂, _, c₃, h₃, ks, c₄, h₄, _, c₅, h₅, rfl, rfl⟩ := h
  have r₁ : Takes true c [] [] c₁ := .consumeKeyword h₁
  have r₄ := many_takes SwitchCase.visits SwitchCase.outlines hg.switchCase h₄
  rw [← visits_cases, ← outlines_cases] at r₄
  exact r₁.trans ((hg.condition h₂).trans (.between h₃ rfl r₄ h₅ rfl))

/-! ## Jumps and handlers -/

theorem returnStatement {f : StmtForm} (h : g.returnStatement b c = .ok f c') :
    Takes true c f.visits f.outlines c' := by
  simp only [Grammar.returnStatement, Grammar.returnValue, bind_ok, get_ok, if_apply, pure_ok] at h
  obtain ⟨_, c₁, h₁, e, c₂, ⟨_, _, ⟨rfl, rfl⟩, he⟩, _, c₃, h₃, rfl, rfl⟩ := h
  have r₁ : Takes true c [] [] c₁ := .consumeKeyword h₁
  have r₂ : Takes false c₁ (visitsOfExpr? e) (outlinesOfExpr? e) c₂ := by
    split at he
    · obtain ⟨rfl, rfl⟩ := he
      exact .refl
    · obtain ⟨e, hv, rfl⟩ := map_ok.mp he
      exact (commaSequence hg.assignment hv).takes.weaken
  exact r₁.trans (r₂.past (semicolon_takes h₃))

omit hg in
theorem jumpLabel {word : Keyword} {l : Option Ident} (h : jumpLabel word b c = .ok l c') :
    Takes true c [] (outlinesOfIdent? l) c' := by
  simp only [Grammar.jumpLabel, labelHere, bind_ok, get_ok, if_apply, pure_ok] at h
  obtain ⟨_, c₁, h₁, l, c₂, ⟨_, _, ⟨rfl, rfl⟩, hl⟩, _, c₃, h₃, rfl, rfl⟩ := h
  have r₁ : Takes true c [] [] c₁ := .consumeKeyword h₁
  have r₂ : Takes false c₁ [] (outlinesOfIdent? l) c₂ := by
    split at hl
    · obtain ⟨i, hi, rfl⟩ := map_ok.mp hl
      exact (ident_fills hi).takes.weaken
    · obtain ⟨rfl, rfl⟩ := hl
      exact .refl
  exact r₁.trans (r₂.past (semicolon_takes h₃))

theorem throwStatement {f : StmtForm} (h : g.throwStatement b c = .ok f c') :
    Takes true c f.visits f.outlines c' := by
  simp only [Grammar.throwStatement, bind_ok, get_ok, if_apply] at h
  obtain ⟨_, c₁, h₁, _, _, ⟨rfl, rfl⟩, h⟩ := h
  split at h
  · obtain ⟨_, _, hf, -⟩ := bind_ok.mp h
    cases fail_ok hf
  · simp only [bind_ok, pure_ok] at h
    obtain ⟨e, c₂, he, _, c₃, h₃, rfl, rfl⟩ := h
    have r₁ : Takes true c [] [] c₁ := .consumeKeyword h₁
    exact r₁.trans ((commaSequence hg.assignment he).takes.past (semicolon_takes h₃))

theorem catchParam {p : Option Pattern} (h : g.catchParam b c = .ok p c') :
    Takes false c (visitsOfPattern? p) (outlinesOfPattern? p) c' := by
  simp only [Grammar.catchParam, bind_ok, if_apply] at h
  obtain ⟨r, c₁, hr, h⟩ := h
  split at h
  · next ht =>
    subst ht
    simp only [bind_ok, pure_ok] at h
    obtain ⟨p, c₂, hp, _, c₃, h₃, rfl, rfl⟩ := h
    have r₁ : Reads true [] c [] [] [.paren] c₁ := .eat_true hr rfl
    exact (r₁.trans ((hg.pattern hp).takes.within.past (.consumeMark h₃ rfl))).weaken
  · next hf =>
    obtain ⟨rfl, rfl⟩ := pure_ok.mp h
    obtain rfl := eat_stays hr hf
    exact .refl

theorem handler {k : Handler} (h : g.handler b c = .ok k c') :
    Takes false c k.visits k.outlines c' := by
  simp only [Grammar.handler, bind_ok, if_apply] at h
  obtain ⟨r, c₁, hr, h⟩ := h
  have r₁ : Takes false c [] [] c₁ := .eat hr fun _ => rfl
  split at h
  · simp only [bind_ok, pure_ok] at h
    obtain ⟨p, c₂, hp, bl, c₃, hb, rfl, rfl⟩ := h
    exact (r₁.trans ((hg.catchParam hp).trans (hg.block hb).takes)).weaken
  · obtain ⟨rfl, rfl⟩ := pure_ok.mp h
    exact r₁

theorem tryStatement {f : StmtForm} (h : g.tryStatement b c = .ok f c') :
    Takes true c f.visits f.outlines c' := by
  simp only [Grammar.tryStatement, bind_ok] at h
  obtain ⟨_, c₁, h₁, bl, c₂, h₂, k, c₃, h₃, fin, c₄, h₄, h⟩ := h
  have r₁ : Takes true c [] [] c₁ := .consumeKeyword h₁
  have r₄ : Takes false c₃ (visitsOfBlock? fin) (outlinesOfBlock? fin) c₄ := by
    have r := after_takes Block.visits (fun b => [b.outline]) (fun _ => rfl)
      (fun h => (hg.block h).takes) h₄
    cases fin <;> exact r
  split at h
  · cases fail_ok h
  · obtain ⟨rfl, rfl⟩ := pure_ok.mp h
    exact r₁.trans ((hg.block h₂).takes.trans ((hg.handler h₃).trans r₄))

/-! ## Statements -/

theorem labeledStatement {f : StmtForm} (h : g.labeledStatement b c = .ok f c') :
    Takes true c f.visits f.outlines c' := by
  simp only [Grammar.labeledStatement, bind_ok, pure_ok] at h
  obtain ⟨l, c₁, h₁, _, c₂, h₂, body, c₃, h₃, rfl, rfl⟩ := h
  have r₂ : Takes true c₁ [] [] c₂ := .consumeMark h₂ rfl
  exact (ident_fills h₁).takes.trans (r₂.trans (hg.statement h₃).takes)

theorem expressionStatement {f : StmtForm} (h : g.expressionStatement b c = .ok f c') :
    Takes true c f.visits f.outlines c' := by
  simp only [Grammar.expressionStatement, bind_ok, pure_ok] at h
  obtain ⟨e, c₁, he, _, c₂, h₂, rfl, rfl⟩ := h
  exact (hg.fullExpression he).takes.past (semicolon_takes h₂)

theorem simpleStatement {f : StmtForm} (h : g.simpleStatement b c = .ok f c') :
    Takes true c f.visits f.outlines c' := by
  simp only [Grammar.simpleStatement, bind_ok, get_ok] at h
  obtain ⟨_, _, ⟨rfl, rfl⟩, h⟩ := h
  generalize c.current.kind = kind at h
  split at h
  · obtain ⟨bl, c₁, hb, h⟩ := bind_ok.mp h
    obtain ⟨rfl, rfl⟩ := pure_ok.mp h
    -- the statement takes the place of the block
    cases bl
    exact (hg.block hb).takes.refines (Refines.parts (.refl _) _)
  · exact hg.ifStatement h
  · exact hg.forStatement h
  · exact hg.whileStatement h
  · exact hg.doWhileStatement h
  · exact hg.switchStatement h
  · exact hg.returnStatement h
  · obtain ⟨l, hl, rfl⟩ := map_ok.mp h
    exact jumpLabel hl
  · obtain ⟨l, hl, rfl⟩ := map_ok.mp h
    exact jumpLabel hl
  · exact hg.throwStatement h
  · exact hg.tryStatement h
  · simp only [bind_ok, pure_ok] at h
    obtain ⟨_, c₁, h₁, _, c₂, h₂, rfl, rfl⟩ := h
    exact Reads.trans (.consumeKeyword h₁) (semicolon_takes h₂)
  · simp only [bind_ok, pure_ok] at h
    obtain ⟨_, c₁, h₁, rfl, rfl⟩ := h
    exact .consumeMark h₁ rfl
  · cases fail_ok h
  · cases fail_ok h
  · rw [if_apply] at h
    split at h
    · cases fail_ok h
    rw [if_apply] at h
    split at h
    · exact hg.labeledStatement h
    · exact hg.expressionStatement h

theorem readStatement {st : Stmt} (h : g.readStatement b c = .ok st c') :
    Fills c st.visits st.outline c' := by
  simp only [Grammar.readStatement, Grammar.statementForm, bind_ok, here_ok, spanFrom_ok,
    pure_ok] at h
  obtain ⟨_, _, ⟨rfl, rfl⟩, form, c₂, ⟨d, c₁, hd, h⟩, _, _, ⟨rfl, rfl⟩, rfl, rfl⟩ := h
  have r : Takes true c form.visits form.outlines c₂ := by
    cases d with
    | some d =>
      obtain ⟨rfl, rfl⟩ := pure_ok.mp h
      exact hg.declaration? hd
    | none =>
      obtain rfl := declaration?_none hd
      exact hg.simpleStatement h
  exact (r.visit (by simp)).fills

theorem step : g.step.Accounts where
  expression := hg.readExpression
  primary := hg.primaryExpression
  pattern := hg.readPattern
  statement := hg.readStatement

end Accounts

theorem accounts_nested (depth : Nat) : (nested depth).Accounts := by
  induction depth with
  | zero => exact accounts_empty
  | succ depth ih => exact ih.step

end ModuleBundler.Grammar
