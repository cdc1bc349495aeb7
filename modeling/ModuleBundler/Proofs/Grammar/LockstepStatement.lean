import Mathlib.Logic.Function.Iterate
import ModuleBundler.Proofs.Grammar.LockstepExpression
import ModuleBundler.Proofs.Grammar.ReadingModule

/-! Corresponding places are read alike: statements and the items of modules. -/
namespace ModuleBundler.Lockstep
open ModuleBundler.Parser ModuleBundler.Grammar
variable {L : Lockstep} {lost : Prop} {n : Nat} {m a : Bool} {s : List Bracket} {c d : Cursor}

namespace At

theorem seesAsyncFunction (t : L.At n m a s c d) :
    d.seesAsyncFunction = c.seesAsyncFunction := by
  rw [Cursor.seesAsyncFunction, Cursor.seesAsyncFunction, t.seesWord]
  cases hw : c.seesWord "async" with
  | false => rfl
  | true =>
    have hk := Cursor.kind_of_seesWord hw
    rcases L.second t (by simp [Cursor.atEnd, hk]) (by simp [hk]) with ⟨hs, hn⟩ | h
    · rw [hs, hn]
    · obtain ⟨kind, hd, hf⟩ := h.follows
      rw [h.ended, hd]
      unfold TokenKind.follows at hf
      split at hf <;> first | rfl | cases hf

theorem seesImport (t : L.At n m a s c d) (hs : c.Matches L.likeness m d) :
    Grammar.seesImport d = Grammar.seesImport c := by
  rw [Grammar.seesImport, Grammar.seesImport, hs.kind]
  cases hw : c.current.kind == .keyword .importKw with
  | false => rfl
  | true =>
    have hk : c.current.kind = .keyword .importKw := beq_iff_eq.mp hw
    rcases L.second t (by simp [Cursor.atEnd, hk]) (by simp [hk]) with ⟨hs, -⟩ | h
    · rw [hs]
    · obtain ⟨kind, hd, hf⟩ := h.follows
      rw [h.ended, hd]
      unfold TokenKind.follows at hf
      split at hf <;> first | rfl | cases hf

/-- Both sides declare variables here, or neither does. -/
theorem varKind (t : L.At n m a s c d) (h : ¬ c.Stopped L.loses s d) :
    VarKind.ofToken? d.current.kind = VarKind.ofToken? c.current.kind := by
  rcases L.view t with h | ⟨-, h⟩ | h
  · rw [h.kind]
  · have ht := h.text
    rw [h.answer]
    generalize c.current.kind = kind at ht
    cases kind <;> first | rfl | cases ht
  · contradiction

/-- A name on the same line is there on both sides or on none. -/
theorem seesOnLine (t : L.At n true a s c d) {kind : TokenKind} (hk : kind.steady = true) :
    (d.sees kind && !d.current.newlineBefore) = (c.sees kind && !c.current.newlineBefore) := by
  rw [t.sees hk]
  cases hs : c.sees kind with
  | false => rfl
  | true => rw [t.newlineBefore (Cursor.atEnd_of_sees hs)]

end At

namespace Parts
variable {g g' : Grammar} (hg : L.Parts n g g') {b : Bool}
include hg

/-! ## Declarations -/

theorem binding (t : L.At n true a s c d) :
    L.Ends (s = []) n true true s (g.binding b c) (g'.binding b d) := by
  refine (hg.pattern t).bind fun _ hp t => ?_
  exact (t.after rfl (fun _ => rfl) hg.assignment).bind fun _ he t => .pure (hp.binding he) t

theorem bindings (t : L.At n m a s c d) (h : ¬ c.Stopped L.loses s d) :
    L.Ends (s = []) n true true s (g.bindings b c) (g'.bindings b d) := by
  refine .get ?_
  rw [t.varKind h]
  generalize hv : VarKind.ofToken? c.current.kind = kind?
  cases kind? with
  | none => exact .fail t
  | some kind =>
    have hn := Accounts.neutral_of_varKind hv
    refine t.advance (by simpa [Cursor.atEnd] using hn.1) (hn.2 s) ?_ fun t => ?_
    · intro hp
      rw [hp] at hv
      cases hv
    refine (hg.binding t).bind fun _ hb t => ?_
    refine (t.many (fun t => t.sees rfl) fun t _ => ?_).bind fun _ hbs t => ?_
    · exact (t.consumeMark rfl rfl).bind fun _ _ t => hg.binding t
    · exact .pure (.pair .plain (hb.cons hbs)) t

theorem varDecl (t : L.At n m a s c d) (h : ¬ c.Stopped L.loses s d) :
    L.Ends (s = []) n true true s (g.varDecl b c) (g'.varDecl b d) :=
  (hg.bindings t h).bind fun _ h t => t.semicolon.bind fun _ _ t => .pure h.varDecl t

omit hg in
theorem declaration?_bind {α : Type} {g : Grammar} {f : Option Decl → Parser α}
    (nameOptional : Bool) : (g.declaration? nameOptional >>= f) b c
      = (if c.seesKeyword .functionKw || c.seesAsyncFunction then
          g.function nameOptional >>= fun fn => f (some (.function fn))
        else if c.seesKeyword .classKw then
          g.classDef nameOptional >>= fun cls => f (some (.class cls))
        else if (VarKind.ofToken? c.current.kind).isSome then
          g.varDecl >>= fun decl => f (some decl)
        else f none : Parser α) b c := by
  have hget {β : Type} (f : Cursor → Parser β) :
      ((get : Parser Cursor) >>= f) b c = f c b c := rfl
  rw [Grammar.declaration?, bind_assoc, hget]
  split
  · rw [bind_assoc]
    rfl
  split
  · rw [bind_assoc]
    rfl
  split
  · rw [bind_assoc]
    rfl
  · rw [pure_bind]

/-- Both sides have a declaration here, or neither has one and nothing is read. -/
theorem declaration? {α : Type} [Likened α] {f f' : Option Decl → Parser α} {m' a' : Bool}
    {s' : List Bracket} {nameOptional : Bool} (t : L.At n m a s c d)
    (h : ¬ c.Stopped L.loses s d)
    (yes : ∀ {x y c₁ d₁}, L.likeness.Like x y → L.At n true true s c₁ d₁ →
      L.Ends (s = []) n m' a' s' (f (some x) b c₁) (f' (some y) b d₁))
    (no : L.Ends (s = []) n m' a' s' (f none b c) (f' none b d)) :
    L.Ends (s = []) n m' a' s' ((g.declaration? nameOptional >>= f) b c)
      ((g'.declaration? nameOptional >>= f') b d) := by
  have hf : d.seesKeyword .functionKw = c.seesKeyword .functionKw := t.sees rfl
  rw [declaration?_bind, declaration?_bind]
  refine .ite ?_ (fun _ => ?_) fun _ => .ite (t.sees rfl) (fun _ => ?_) fun _ =>
    .ite ?_ (fun _ => ?_) fun _ => no
  · rw [hf, t.seesAsyncFunction]
  · exact (hg.function _ t).bind fun _ hf t => yes (hf.map Decl.function fun _ _ => rfl) t
  · exact (hg.classDef _ t).bind fun _ hc t => yes (hc.map Decl.class fun _ _ => rfl) t
  · rw [t.varKind h]
  · exact (hg.varDecl t h).bind fun _ hd t => yes hd t

/-! ## Conditions and loops -/

theorem condition (t : L.At n m a s c d) :
    L.Ends lost n true true s (g.condition b c) (g'.condition b d) := by
  refine t.consumeParen.bind fun _ _ t => (hg.enclosed t).inside.bind fun _ he t => ?_
  exact (t.consumeMark (Bracket.step_rParen s) rfl).bind fun _ _ t => .pure he t

theorem ifStatement (t : L.At n m a s c d) :
    L.Ends (s = []) n true true s (g.ifStatement b c) (g'.ifStatement b d) := by
  refine (t.consumeKeyword rfl).bind fun _ _ t => (hg.condition t).bind fun _ he t => ?_
  refine (hg.statement t).bind fun _ hs t => ?_
  exact (t.after rfl (fun _ => rfl) hg.statement).bind fun _ hn t => .pure (he.ifStmt hs hn) t

theorem forStart (t : L.At n true a (.paren :: s) c d) :
    L.Ends lost n true a (.paren :: s) (g.forStart b c) (g'.forStart b d) := by
  refine .get (.ite (t.sees rfl) (fun _ => .pure (.fixed fun _ => rfl) t) fun _ => ?_)
  refine .ite ?_ (fun _ => ?_) fun _ => ?_
  · rw [t.varKind At.not_stopped_inside]
  · exact (hg.bindings t At.not_stopped_inside).inside.bind fun _ h t =>
      .pure h.forVars (L.weaken t)
  · exact (hg.sequence t).inside.bind fun _ he t =>
      .pure (he.map ForStart.expr fun _ _ => rfl) (L.weaken t)

omit hg in
/-- What a loop starts with is an expression only if one is read there. -/
theorem forStart_expr {g : Grammar} {e : Expr} {c' : Cursor}
    (h : g.forStart b c = .ok (.expr e) c') :
    Grammar.commaSequence g.assignment b c = .ok e c' := by
  simp only [Grammar.forStart, bind_ok, get_ok, if_apply] at h
  obtain ⟨_, _, ⟨rfl, rfl⟩, h⟩ := h
  split at h
  · cases h
  split at h
  · simp only [bind_ok, pure_ok] at h
    obtain ⟨_, _, -, hr, -⟩ := h
    cases hr
  · simp only [bind_ok, pure_ok] at h
    obtain ⟨_, _, he, hr, rfl⟩ := h
    cases hr
    exact he

theorem forTarget {start start' : ForStart} {c₁ d₁ : Cursor} {b' : Bool}
    (ho : L.At n m a s c d) (hr : g.forStart b' c = .ok start c₁)
    (h : L.likeness.Like start start') {m a : Bool} {s : List Bracket} (t : L.At n m a s c₁ d₁) :
    L.Ends lost n m a s (Grammar.forTarget start b c₁) (Grammar.forTarget start' b d₁) := by
  obtain ⟨rfl, rfl⟩ | ⟨kind, bs, bs', rfl, rfl, hbs⟩ | ⟨e, e', rfl, rfl, he⟩ := h.cases_forStart
  · exact .fail t
  · exact .pure hbs.targetVars t
  · rw [Grammar.forTarget, Grammar.forTarget]
    obtain ⟨p, p', hx, hx', hp⟩ | ⟨x, x', hx, hx'⟩ := he.cases_toPattern
    · rw [hx, hx']
      exact .pure (hp.map ForTarget.pattern fun _ _ => rfl) t
    · rw [hx, hx']
      exact .error (hg.targets ho (forStart_expr hr) t he hx hx')

theorem exprBefore {mark : Punctuator} (hm : TokenKind.steady (.punct mark) = true)
    (t : L.At n true true s c d) :
    L.Ends (s = []) n true true s (g.exprBefore mark b c) (g'.exprBefore mark b d) :=
  .get (.ite (t.sees hm) (fun _ => .pure .none t) fun _ => (hg.enclosed t).map fun h => h.some)

theorem forTail {start start' : ForStart} (h : L.likeness.Like start start')
    (t : L.At n m a (.paren :: s) c d) :
    L.Ends (s = []) n true true s (g.forTail start b c) (g'.forTail start' b d) := by
  refine (t.consumeMark rfl rfl).bind fun _ _ t => ?_
  refine Ends.bind (hg.exprBefore rfl t).inside fun _ ht t => ?_
  refine (t.consumeMark rfl rfl).bind fun _ _ t => ?_
  refine Ends.bind (hg.exprBefore rfl t).inside fun _ hu t => ?_
  refine (t.consumeMark (Bracket.step_rParen s) rfl).bind fun _ _ t => ?_
  exact (hg.statement t).bind fun _ hs t => .pure (h.forStmt ht hu hs) t

theorem forStatement (t : L.At n m a s c d) :
    L.Ends (s = []) n true true s (g.forStatement b c) (g'.forStatement b d) := by
  refine (t.consumeKeyword rfl).bind fun _ _ t => ?_
  refine Ends.bindPlain (t.eat? rfl fun _ => rfl) fun _ t => ?_
  refine t.consumeParen.bind fun _ _ t => ?_
  refine Ends.bind (hg.forStart (b := false) t) fun hr hs t₁ => .get ?_
  refine .ite (t₁.sees rfl) (fun hk => ?_) fun _ => .ite (t₁.seesWord _) (fun hk => ?_) fun _ =>
    hg.forTail hs t₁
  · refine (hg.forTarget t hr hs t₁).bind fun h htarget t' => ?_
    obtain ⟨-, -, rfl⟩ := Accounts.forTarget h
    have hin := Cursor.kind_of_sees hk
    refine t'.advance (Cursor.atEnd_of_sees hk) (by rw [hin]; rfl) (by simp [hin]) fun t => ?_
    refine (hg.enclosed t).inside.bind fun _ he t => ?_
    refine (t.consumeMark (Bracket.step_rParen s) rfl).bind fun _ _ t => ?_
    exact (hg.statement t).bind fun _ hs t => .pure (htarget.forIn he hs) t
  · refine (hg.forTarget t hr hs t₁).bind fun h htarget t' => ?_
    obtain ⟨-, -, rfl⟩ := Accounts.forTarget h
    have hof := Cursor.kind_of_seesWord hk
    refine t'.advance (by simp [Cursor.atEnd, hof]) (by rw [hof]; rfl) (by simp [hof]) fun t => ?_
    refine Ends.bind (hg.assignment t).inside fun _ he t => ?_
    refine (t.consumeMark (Bracket.step_rParen s) rfl).bind fun _ _ t => ?_
    exact (hg.statement t).bind fun _ hs t => .pure (htarget.forOf _ he hs) t

theorem whileStatement (t : L.At n m a s c d) :
    L.Ends (s = []) n true true s (g.whileStatement b c) (g'.whileStatement b d) := by
  refine (t.consumeKeyword rfl).bind fun _ _ t => (hg.condition t).bind fun _ he t => ?_
  exact (hg.statement t).bind fun _ hs t =>
    .pure (.map₂ StmtForm.whileStmt (fun _ _ _ => rfl) he hs) t

theorem doWhileStatement (t : L.At n m a s c d) :
    L.Ends (s = []) n true true s (g.doWhileStatement b c) (g'.doWhileStatement b d) := by
  refine (t.consumeKeyword rfl).bind fun _ _ t => (hg.statement t).bind fun _ hs t => ?_
  refine (t.consumeKeyword rfl).bind fun _ _ t => (hg.condition t).bind fun _ he t => ?_
  exact t.semicolon.bind fun _ _ t => .pure (.map₂ StmtForm.doWhile (fun _ _ _ => rfl) hs he) t

/-! ## Branches -/

theorem caseTest (t : L.At n m a (.curly :: s) c d) :
    L.Ends lost n true true (.curly :: s) (g.caseTest b c) (g'.caseTest b d) := by
  refine t.eat rfl rfl (fun t => ?_) fun _ => t.eat rfl rfl (fun t => ?_) fun _ => ?_
  · exact (hg.sequence t).inside.map fun h => h.some
  · exact .pure .none t
  · exact .fail t

theorem switchCase (t : L.At n m a (.curly :: s) c d) :
    L.Ends lost n true true (.curly :: s) (g.switchCase b c) (g'.switchCase b d) := by
  refine (hg.caseTest t).bind fun _ he t => (t.consumeMark rfl rfl).bind fun _ _ t => ?_
  refine (t.many (fun t => ?_) fun t _ => (hg.statement t).inside).bind fun _ hss t =>
    .pure (he.switchCase hss) t
  rw [Cursor.seesKeyword, Cursor.seesKeyword, Cursor.seesMark, t.sees_inside rfl,
    t.sees_inside rfl, t.sees_inside rfl, t.atEnd_inside]
  rfl

theorem switchStatement (t : L.At n m a s c d) :
    L.Ends lost n true true s (g.switchStatement b c) (g'.switchStatement b d) := by
  refine (t.consumeKeyword rfl).bind fun _ _ t => (hg.condition t).bind fun _ he t => ?_
  refine (t.consumeMark rfl rfl).bind fun _ _ t => ?_
  refine (t.manyUntil hg.switchCase).bind fun _ hcs t => ?_
  exact (t.consumeMark (Bracket.step_rBrace s) rfl).bind fun _ _ t => .pure (he.switchStmt hcs) t

/-! ## Jumps and exceptions -/

/-- A value that is left out at the end of a script is also left out before a new line. -/
theorem returnValue (t : L.At n true true s c d) :
    L.Ends (s = []) n true true s (g.returnValue b c) (g'.returnValue b d) := by
  refine .get (.ite ?_ (fun _ => .pure .none t) fun _ => (hg.sequence t).map fun h => h.some)
  by_cases h : c.Stopped L.loses s d
  · rw [h.newline, h.ended]
    simp
  · have hs := t.same h
    rw [Cursor.seesMark, Cursor.seesMark, Cursor.seesMark, Cursor.seesMark, At.sees_same hs,
      At.sees_same hs, At.atEnd_same hs, hs.newline rfl]

theorem returnStatement (t : L.At n m a s c d) (hs : c.Matches L.likeness m d) :
    L.Ends (s = []) n true true s (g.returnStatement b c) (g'.returnStatement b d) := by
  have hword : L.Ends (s = []) n true true s (Parser.consumeKeyword .returnKw b c)
      (Parser.consumeKeyword .returnKw b d) :=
    t.consume (At.sees_same hs _) rfl (by rintro ⟨⟩) fun _ t => .pure .plain t
  refine hword.bind fun _ _ t => (hg.returnValue t).bind fun _ he t => ?_
  exact t.semicolon.bind fun _ _ t => .pure he.returnStmt t

omit hg in
theorem labelHere (t : L.At n true a s c d) :
    L.Ends lost n true a s (Grammar.labelHere b c) (Grammar.labelHere b d) :=
  .get (.ite (t.seesOnLine rfl) (fun _ => (t.ident.weaken).map fun h => h.some) fun _ =>
    .pure .none t)

omit hg in
theorem jumpLabel {word : Keyword} (hw : TokenKind.steady (.keyword word) = true)
    (t : L.At n m a s c d) :
    L.Ends lost n true true s (Grammar.jumpLabel word b c) (Grammar.jumpLabel word b d) := by
  refine (t.consumeKeyword hw).bind fun _ _ t => (labelHere t).bind fun _ hl t => ?_
  exact t.semicolon.bind fun _ _ t => .pure hl t

theorem throwStatement (t : L.At n m a s c d) :
    L.Ends (s = []) n true true s (g.throwStatement b c) (g'.throwStatement b d) := by
  refine (t.consumeKeyword rfl).bind fun {_ _ c₁ d₁} _ _ t => .get ?_
  by_cases h : c₁.Stopped L.loses s d₁
  · have hl := h.loses
    refine .of_stopped h (L.ended t) fun h => ?_
    rw [if_apply] at h
    split at h
    · obtain ⟨_, _, hf, -⟩ := bind_ok.mp h
      cases fail_ok hf
    · simp only [bind_ok, pure_ok] at h
      obtain ⟨e, c₂, he, _, c₃, h₃, -, rfl⟩ := h
      exact ⟨_, _, (Accounts.commaSequence (hg.accounts hl).assignment he).takes.past
        (semicolon_takes h₃)⟩
  · refine .ite ((t.same h).newline rfl) (fun _ => ?_) fun _ => ?_
    · exact .error (L.fault t fun _ => .newlineAfterThrow)
    · exact (hg.sequence t).bind fun _ he t => t.semicolon.bind fun _ _ t =>
        .pure (he.map StmtForm.throwStmt fun _ _ => rfl) t

theorem catchParam (t : L.At n true true s c d) :
    L.Ends lost n true true s (g.catchParam b c) (g'.catchParam b d) := by
  refine t.eatParen (fun t => ?_) (.pure .none t)
  refine (hg.pattern t).inside.bind fun _ hp t => ?_
  exact (t.consumeMark (Bracket.step_rParen s) rfl).bind fun _ _ t => .pure hp.some t

theorem handler (t : L.At n true true s c d) :
    L.Ends (s = []) n true true s (g.handler b c) (g'.handler b d) := by
  refine t.eat rfl rfl (fun t => ?_) fun _ => .pure (.fixed fun _ => rfl) t
  exact (hg.catchParam t).bind fun _ hp t => (hg.block t).bind fun _ hb t => .pure (hp.handler hb) t

theorem tryStatement (t : L.At n m a s c d) :
    L.Ends (s = []) n true true s (g.tryStatement b c) (g'.tryStatement b d) := by
  refine (t.consumeKeyword rfl).bind fun _ _ t => (hg.block t).bind fun _ hb t => ?_
  refine (hg.handler t).bind fun {x x' _ _} _ hx t => ?_
  refine (t.after rfl (fun _ => rfl) hg.block).bind fun {f f' _ _} _ hf t => ?_
  have htry := hb.tryStmt hx hf
  obtain ⟨rfl, rfl⟩ | ⟨p, b, p', b', rfl, rfl⟩ := hx.cases_handler
  · obtain ⟨rfl, rfl⟩ | ⟨f, f', rfl, rfl, -⟩ := hf.cases_option
    · exact .fail t
    · exact .pure htry t
  · exact .pure htry t

/-! ## Statements -/

theorem labeledStatement (t : L.At n m a s c d) :
    L.Ends (s = []) n true true s (g.labeledStatement b c) (g'.labeledStatement b d) := by
  refine t.ident.bind fun _ hi t => (t.consumeMark rfl rfl).bind fun _ _ t => ?_
  exact (hg.statement t).bind fun _ hs t =>
    .pure (.map₂ StmtForm.labeled (fun _ _ _ => rfl) hi hs) t

theorem expressionStatement (t : L.At n m a s c d) :
    L.Ends (s = []) n true true s (g.expressionStatement b c) (g'.expressionStatement b d) :=
  (hg.fullExpression t).bind fun _ he t => t.semicolon.bind fun _ _ t =>
    .pure (he.map StmtForm.expr fun _ _ => rfl) t

theorem simpleStatement (t : L.At n m true s c d) (h : ¬ c.Stopped L.loses s d) :
    L.Ends (s = []) n true true s (g.simpleStatement b c) (g'.simpleStatement b d) := by
  have hs := t.same h
  refine .get ?_
  rw [hs.kind]
  generalize hk : c.current.kind = kind
  split
  · exact (hg.block t).bind fun _ hb t => .pure hb.blockStmt t
  · exact hg.ifStatement t
  · exact hg.forStatement t
  · exact hg.whileStatement t
  · exact hg.doWhileStatement t
  · exact hg.switchStatement t
  · exact hg.returnStatement t hs
  · exact (jumpLabel rfl t).map fun h => h.map StmtForm.breakStmt fun _ _ => rfl
  · exact (jumpLabel rfl t).map fun h => h.map StmtForm.continueStmt fun _ _ => rfl
  · exact hg.throwStatement t
  · exact hg.tryStatement t
  · exact (t.consumeKeyword rfl).bind fun _ _ t => t.semicolon.bind fun _ _ t =>
      .pure (.fixed fun _ => rfl) t
  · exact (t.consumeMark rfl rfl).bind fun _ _ t => .pure (.fixed fun _ => rfl) t
  · exact .fail t
  · exact .fail t
  · refine .ite (t.seesImport hs) (fun _ => .fail t) fun _ => .ite ?_ (fun _ => ?_) fun _ => ?_
    · cases hi : kind == .identifier with
      | false => rfl
      | true =>
        have hi : c.current.kind = .identifier := hk.trans (beq_iff_eq.mp hi)
        rw [Bool.true_and, Bool.true_and, Bool.eq_iff_iff, beq_iff_eq, beq_iff_eq]
        exact t.second_iff (by simp [Cursor.atEnd, hi]) (by simp [hi]) rfl (by rintro ⟨⟩)
    · exact hg.labeledStatement t
    · exact hg.expressionStatement t

theorem statementForm (t : L.At n m true s c d) (h : ¬ c.Stopped L.loses s d) :
    L.Ends (s = []) n true true s (g.statementForm b c) (g'.statementForm b d) :=
  hg.declaration? t h (fun hd t => .pure (hd.map StmtForm.decl fun _ _ => rfl) t)
    (hg.simpleStatement t h)

theorem readStatement (t : L.At n m true s c d) :
    L.Ends (s = []) n true true s (g.readStatement b c) (g'.readStatement b d) := by
  by_cases h : c.Stopped L.loses s d
  · exact .of_stopped h (L.ended t) fun h' => ⟨_, _, ((hg.accounts h.loses).readStatement h').takes⟩
  have hs := t.span h
  refine .here ((hg.statementForm t h).bind fun _ hf t => (t.spanFrom hs).bind fun _ hs t => ?_)
  exact .pure (hs.stmt hf) t

theorem step (h : L.Targets g.step) : L.Parts (n + 1) g.step g'.step where
  expression t := (hg.readExpression (L.inner t)).outer
  primary t := (hg.primaryExpression (L.inner t)).outer
  pattern t := (hg.readPattern (L.inner t)).outer
  statement t := (hg.readStatement (L.inner t)).outer
  accounts h := (hg.accounts h).step
  targets := h

/-! ## Imports and exports -/

omit hg in
theorem moduleSource (t : L.At n m true s c d) :
    L.Ends lost n true true s (Grammar.moduleSource b c) (Grammar.moduleSource b d) := by
  refine t.consume (t.sees_apart rfl) rfl (by rintro ⟨⟩) fun hs t' => ?_
  have hsame := t.same (At.not_stopped (Cursor.atEnd_of_sees hs))
  rw [hsame.value]
  exact .pure (.moduleSource _ hsame.span) t'

omit hg in
theorem fromSource (t : L.At n m true s c d) :
    L.Ends lost n true true s (Grammar.fromSource b c) (Grammar.fromSource b d) :=
  (t.consumeWord _).bind fun _ _ t => (moduleSource t).bind fun _ hm t =>
    t.semicolon.bind fun _ _ t => .pure hm t

omit hg in
theorem namedImport (t : L.At n m true s c d) :
    L.Ends (s = []) n true true s (Grammar.namedImport b c) (Grammar.namedImport b d) :=
  t.propertyName.bind fun _ hi t => (t.afterWord _ fun t => t.ident).bind fun _ hx t =>
    .pure (hi.namedImport hx) t

omit hg in
theorem namedExport (t : L.At n m true s c d) :
    L.Ends (s = []) n true true s (Grammar.namedExport b c) (Grammar.namedExport b d) :=
  t.propertyName.bind fun _ hi t => (t.afterWord _ fun t => t.propertyName).bind fun _ hx t =>
    .pure (hi.namedExport hx) t

omit hg in
theorem importList (t : L.At n true true s c d) :
    L.Ends lost n true true s (Grammar.importList b c) (Grammar.importList b d) := by
  refine t.eat rfl rfl (fun t => ?_) fun _ => t.eat rfl rfl (fun t => ?_) fun _ => .unexpected t
  · refine (t.consumeWord _).bind fun _ _ t => t.ident.bind fun _ hi t => ?_
    exact .pure (.cons (hi.map ImportSpecifier.namespace fun _ _ => rfl) .nil) t
  · exact t.commaList (Bracket.step_rBrace s) rfl fun t => (namedImport t).inside

omit hg in
theorem otherImports (t : L.At n true true s c d) :
    L.Ends lost n true true s (Grammar.otherImports b c) (Grammar.otherImports b d) :=
  t.eat rfl rfl (fun t => importList t) fun _ => .pure .nil t

omit hg in
theorem importNames (t : L.At n true true s c d) :
    L.Ends lost n true true s (Grammar.importNames b c) (Grammar.importNames b d) := by
  refine .get (.ite (t.sees rfl) (fun _ => ?_) fun _ => ?_)
  · refine t.ident.bind fun _ hi t => (otherImports t).bind fun _ ho t => ?_
    refine (fromSource t).bind fun _ hm t => .pure ?_ t
    exact ((hi.map ImportSpecifier.default fun _ _ => rfl).cons ho).importDecl hm
  · exact (importList t).bind fun _ hl t => (fromSource t).bind fun _ hm t =>
      .pure (hl.importDecl hm) t

omit hg in
theorem importDecl (t : L.At n m a s c d) :
    L.Ends lost n true true s (Grammar.importDecl b c) (Grammar.importDecl b d) := by
  refine (t.consumeKeyword rfl).bind fun _ _ t => .get (.ite (t.sees_apart rfl) (fun _ => ?_)
    fun _ => importNames t)
  exact (moduleSource t).bind fun _ hm t => t.semicolon.bind fun _ _ t =>
    .pure (.importDecl .nil hm) t

theorem declaration (nameOptional : Bool) (t : L.At n m a s c d) :
    L.Ends (s = []) n true true s (g.declaration nameOptional b c)
      (g'.declaration nameOptional b d) := by
  by_cases h : c.Stopped L.loses s d
  · exact .of_stopped h (L.ended t) fun h' => ⟨_, _, ((hg.accounts h.loses).declaration h').takes⟩
  have hs := t.span h
  refine .here (hg.declaration? t h (fun hd t => ?_) (.unexpected t))
  exact (t.spanFrom hs).bind fun _ hs t => .pure (.pair hs hd) t

theorem exportDefault (t : L.At n true true s c d) :
    L.Ends (s = []) n true true s (g.exportDefault b c) (g'.exportDefault b d) := by
  refine .get (.ite ?_ (fun _ => ?_) fun _ => ?_)
  · have hf : d.seesKeyword .functionKw = c.seesKeyword .functionKw := t.sees rfl
    have hc : d.seesKeyword .classKw = c.seesKeyword .classKw := t.sees rfl
    rw [hf, hc, t.seesAsyncFunction]
  · exact (hg.declaration true t).bind fun _ h t => .pure h.exportDefault t
  · exact (hg.assignment t).bind fun _ he t => t.semicolon.bind fun _ _ t =>
      .pure (he.map ExportDecl.defaultExpr fun _ _ => rfl) t

omit hg in
theorem exportAll (t : L.At n true true s c d) :
    L.Ends (s = []) n true true s (Grammar.exportAll b c) (Grammar.exportAll b d) :=
  (t.afterWord _ fun t => t.propertyName).bind fun _ hx t => (fromSource t).bind fun _ hm t =>
    .pure (hm.exportAll hx) t

omit hg in
theorem exportNames (t : L.At n true true (.curly :: s) c d) :
    L.Ends lost n true true s (Grammar.exportNames b c) (Grammar.exportNames b d) := by
  refine (t.commaList (Bracket.step_rBrace s) rfl fun t => (namedExport t).inside).bind
    fun _ hes t => ?_
  refine (t.afterWord _ fun t => moduleSource t).bind fun _ hm t => ?_
  exact t.semicolon.bind fun _ _ t => .pure (hes.exportNames hm) t

theorem exportDecl (t : L.At n m a s c d) :
    L.Ends (s = []) n true true s (g.exportDecl b c) (g'.exportDecl b d) := by
  refine (t.consumeKeyword rfl).bind fun _ _ t => ?_
  refine t.eat rfl rfl (fun t => hg.exportDefault t) fun _ => ?_
  refine t.eat rfl rfl (fun t => exportAll t) fun _ => ?_
  refine t.eat rfl rfl (fun t => exportNames t) fun _ => ?_
  exact (hg.declaration false t).bind fun _ h t => .pure h.exportDecl t

theorem itemForm (t : L.At n m true s c d) (h : ¬ c.Stopped L.loses s d) :
    L.Ends (s = []) n true true s (g.itemForm b c) (g'.itemForm b d) := by
  have hs := t.same h
  refine .get (.ite (t.seesImport hs) (fun _ => ?_) fun _ => .ite ?_ (fun _ => ?_) fun _ => ?_)
  · exact (importDecl t).map fun h => h.map ItemForm.importDecl fun _ _ => rfl
  · rw [hs.kind]
  · exact (hg.exportDecl t).map fun h => h.map ItemForm.exportDecl fun _ _ => rfl
  · exact (hg.readStatement t).map fun h => h.map ItemForm.stmt fun _ _ => rfl

theorem item (t : L.At n m true s c d) (h : ¬ c.Stopped L.loses s d) :
    L.Ends (s = []) n true true s (g.item b c) (g'.item b d) := by
  have hs := t.span h
  refine .here ((hg.itemForm t h).bind fun _ hf t => (t.spanFrom hs).bind fun _ hs t => ?_)
  exact .pure (hs.item hf) t

end Parts

/-! ## Grammars of nested parts -/

/-- No tokens are left to read. -/
theorem parts_zero {g g' : Grammar} (targets : L.Targets g)
    (accounts : L.loses → g.Accounts) : L.Parts 0 g g' where
  expression t := absurd (L.room t) (Nat.not_succ_le_zero _)
  primary t := absurd (L.room t) (Nat.not_succ_le_zero _)
  pattern t := absurd (L.room t) (Nat.not_succ_le_zero _)
  statement t := absurd (L.room t) (Nat.not_succ_le_zero _)
  accounts := accounts
  targets := targets

/-- No part is nested deeper than there are tokens, so that it does not matter by which grammar
deeper parts would be read. -/
theorem parts_iterate {g g' : Grammar} (targets : ∀ j, L.Targets (Grammar.step^[j] g))
    (accounts : L.loses → g.Accounts) {k k' : Nat} (hk : n ≤ k) (hk' : n ≤ k') :
    L.Parts n (Grammar.step^[k] g) (Grammar.step^[k'] g') := by
  induction n generalizing k k' with
  | zero =>
    refine parts_zero (targets k) fun h => ?_
    induction k with
    | zero => exact accounts h
    | succ k ih =>
      rw [Function.iterate_succ_apply']
      exact (ih (Nat.zero_le k)).step
  | succ n ih =>
    obtain ⟨k, rfl⟩ := Nat.exists_eq_add_of_lt hk
    obtain ⟨k', rfl⟩ := Nat.exists_eq_add_of_lt hk'
    have htargets := targets (n + k + 1)
    rw [Function.iterate_succ_apply'] at htargets
    rw [Function.iterate_succ_apply', Function.iterate_succ_apply']
    exact (ih (Nat.le_add_right ..) (Nat.le_add_right ..)).step htargets

theorem nested_eq_iterate (k : Nat) : nested k = Grammar.step^[k] empty := by
  induction k with
  | zero => rfl
  | succ k ih => rw [nested, ih, Function.iterate_succ_apply']

/-- Any two bounds on the nesting that are no less than the number of tokens give the same. -/
theorem parts_nested (targets : ∀ j, L.Targets (nested j)) {k k' : Nat} (hk : n ≤ k)
    (hk' : n ≤ k') : L.Parts n (nested k) (nested k') := by
  rw [nested_eq_iterate, nested_eq_iterate]
  exact parts_iterate (fun j => nested_eq_iterate j ▸ targets j) (fun _ => accounts_empty) hk hk'

/-- With one bound on the nesting there may be any number of tokens. -/
theorem parts_self (targets : ∀ j, L.Targets (nested j)) (n k : Nat) :
    L.Parts n (nested k) (nested k) := by
  induction k generalizing n with
  | zero =>
    exact ⟨fun t => .fail t, fun t => .fail t, fun t => .fail t, fun t => .fail t,
      fun _ => accounts_empty, targets 0⟩
  | succ k ih =>
    cases n with
    | zero => exact parts_zero (targets _) fun _ => accounts_nested _
    | succ n => exact (ih n).step (targets (k + 1))

end ModuleBundler.Lockstep
