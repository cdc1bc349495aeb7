import ModuleBundler.Proofs.Grammar.NarrowExpression

/-! The readers of declarations and statements with `in` as an operator and with `in` as the mark of
a loop, and what an expression in the head of a loop is. -/
namespace ModuleBundler

variable {n : Nat} {h : Cursor → Prop} {c c' : Cursor} {b : Bool} {g : Grammar}

/-! ## Where nothing starts -/

namespace Cursor.Halted
open ModuleBundler.Parser ModuleBundler.Grammar

theorem kind (hc : c.Halted) :
    c.current.kind = .keyword .inKw ∨ c.current.kind = .punct .fatArrow := by
  unfold Halted TokenKind.halts at hc
  split at hc
  · next hk => exact .inl hk
  · next hk => exact .inr hk
  · cases hc

theorem operand (hc : c.Halted) : Ends (fun _ => False) g.operand c := by
  obtain ⟨previous, ⟨kind, span, value, newline⟩, ahead⟩ := c
  obtain rfl | rfl : kind = .keyword .inKw ∨ kind = .punct .fatArrow := hc.kind
  all_goals rintro x c' ⟨⟩

theorem expressionStatement (hc : c.Halted) :
    Ends (fun _ => False) g.expressionStatement c := by
  have hfull : Ends (fun _ => False) g.fullExpression c :=
    .of_fails (.of_fails hc.operand)
  exact .of_fails hfull

theorem simpleStatement (hc : c.Halted) : Ends (fun _ => False) g.simpleStatement c := by
  have h := hc.expressionStatement (g := g)
  obtain ⟨previous, ⟨kind, span, value, newline⟩, ahead⟩ := c
  obtain rfl | rfl : kind = .keyword .inKw ∨ kind = .punct .fatArrow := hc.kind
  all_goals exact h

theorem readStatement (hc : c.Halted) : Ends (fun _ => False) g.readStatement c := by
  have h := hc.simpleStatement (g := g)
  have hform : Ends (fun _ => False) g.statementForm c := by
    obtain ⟨previous, ⟨kind, span, value, newline⟩, ahead⟩ := c
    obtain rfl | rfl : kind = .keyword .inKw ∨ kind = .punct .fatArrow := hc.kind
    all_goals exact h
  exact .here (.of_fails hform)

theorem switchCase (hc : c.Halted) : Ends (fun _ => False) g.switchCase c := by
  have htest : Ends (fun _ => False) g.caseTest c :=
    hc.eat rfl (.otherwise rfl (hc.eat rfl (.otherwise rfl .fail)))
  exact .of_fails htest

end Cursor.Halted

/-! ## Declarations and statements -/

namespace Parser.Flagless
open ModuleBundler.Grammar

theorem condition : Flagless g.condition :=
  consumeMark.bind fun _ => of_const.bind fun _ => consumeMark.bind fun _ => of_const

theorem forTarget {start : ForStart} : Flagless (forTarget start) := by
  cases start with
  | expr expr =>
    intro c
    rw [Grammar.forTarget]
    cases expr.toPattern <;> rfl
  | _ => exact of_const

theorem exprBefore {mark : Punctuator} : Flagless (g.exprBefore mark) :=
  .get fun _ => .ite of_const (.map of_const)

theorem jumpLabel {word : Keyword} : Flagless (jumpLabel word) :=
  consumeKeyword.bind fun _ => bind (.get fun _ => .ite ident.map of_const) fun _ =>
    semicolon.bind fun _ => of_const

end Parser.Flagless

namespace Grammar.Narrows
open ModuleBundler.Parser

variable (hg : g.Narrows n)

include hg

theorem binding (t : c.Room o n) : Narrowed o n Cursor.Halted False (fun d => AnyOpenIn d.parts)
    (g.binding true c) (g.binding false c) := by
  refine (hg.pattern t).andThen fun t => ?_
  refine (Narrowed.after hg.assignment t).bind (fun t => .pure t ?_) fun hc => .pure hc
  simp [Binding.parts]

theorem bindings (t : c.Room o (n + 1)) : Narrowed o n Cursor.Halted False
    (fun d => AnyOpenIn (d.2.flatMap Binding.parts)) (g.bindings true c) (g.bindings false c) := by
  refine .get ?_
  generalize hk : VarKind.ofToken? c.current.kind = kind?
  cases kind? with
  | none => exact .fail
  | some kind =>
    have hend : c.atEnd = false := by simpa [Cursor.atEnd] using (Accounts.neutral_of_varKind hk).1
    refine .skip (t.advance hend) .of_const fun _ t => (hg.binding t).bind (fun t => ?_) ?_
    · refine (Narrowed.many (s := fun d => AnyOpenIn d.parts) (fun t _ => ?_)
        (fun hc hs => (hc.not_sees rfl hs).elim) t).bind (fun t => .pure t (by simp))
        fun hc => .pure hc
      exact .skip t.outer.consumeMark .consumeMark fun _ t => hg.binding t
    · exact fun hc => (Ends.many (hc.sees rfl) hc).bind fun hc => .pure hc

/-- Both read a declaration here, or neither does. -/
theorem declaration? {nameOptional : Bool} (t : c.Room o (n + 1)) :
    Narrowed o n Cursor.Halted False (fun d => AnyOpenIn (d.toList.map .decl))
      (g.declaration? nameOptional true c) (g.declaration? nameOptional false c) ∨
      ∀ b, g.declaration? nameOptional b c = .ok none c := by
  have happly (b : Bool) : g.declaration? nameOptional b c
      = (if c.seesKeyword .functionKw || c.seesAsyncFunction then
          g.function nameOptional >>= fun fn => pure (some (.function fn))
        else if c.seesKeyword .classKw then
          g.classDef nameOptional >>= fun cls => pure (some (.class cls))
        else if (VarKind.ofToken? c.current.kind).isSome then
          g.varDecl >>= fun decl => pure (some decl)
        else pure none : Parser (Option Decl)) b c := rfl
  have hvars : Narrowed o n Cursor.Halted False (fun d => (Visit.decl d).OpenIn)
      (g.varDecl true c) (g.varDecl false c) := by
    refine (hg.bindings t).bind (fun t => .skip t.semicolon .semicolon fun _ t => ?_)
      fun hc => (hc.semicolon hc).bind fun hc => .pure hc
    exact .pure t (by simp)
  rw [happly, happly]
  split
  · exact .inl (.skip ((hg.same o).function _ (t.fresh [])).alone .function fun _ t =>
      .pure t (by simp))
  split
  · exact .inl ((hg.classDef t).andThen fun t => .pure t (by simp))
  split
  · exact .inl (hvars.bind (fun t => .pure t (by simp)) fun hc => .pure hc)
  · exact .inr fun b => by simp [*]

theorem ifStatement (t : c.Room o (n + 1)) : Narrowed o n Cursor.Halted False
    (fun f => AnyOpenIn f.openParts) (g.ifStatement true c) (g.ifStatement false c) := by
  refine .skip t.consumeKeyword .consumeKeyword fun _ t => ?_
  refine .skip ((hg.same o).condition (t.moved [])).alone .condition fun _ t => ?_
  refine (hg.statement t).bind (fun t => ?_) fun hc => ?_
  · exact (Narrowed.after hg.statement t).bind (fun t => .pure t (by simp)) fun hc => .pure hc
  · exact (hc.after rfl hc).bind fun hc => .pure hc

theorem forStart (t : c.Room o n) : Narrowed o n Cursor.Halted False (fun s => AnyOpenIn s.parts)
    (g.forStart true c) (g.forStart false c) := by
  refine .get (.ite (fun _ => ?_) fun _ => .ite (fun _ => ?_) fun _ => ?_)
  · exact .pure t (by simp [ForStart.parts])
  · exact (hg.bindings t.outer).bind (fun t => .pure t (by simp [ForStart.parts]))
      fun hc => .pure hc
  · exact (hg.sequence t).bind (fun t => .pure t (by simp [ForStart.parts])) fun hc => .pure hc

omit hg in
theorem same_forTarget {start : ForStart} (t : c.Room o n) :
    Same o n (forTarget start b c) (forTarget start b c) := by
  cases start with
  | nothing => exact .fail t
  | vars kind bindings => exact .pure t
  | expr expr =>
    rw [Grammar.forTarget]
    cases expr.toPattern with
    | ok pattern => exact .pure t
    | error e => exact .error_at t

theorem forStatement (t : c.Room o (n + 1)) : Narrowed o n Cursor.Halted False
    (fun f => AnyOpenIn f.openParts) (g.forStatement true c) (g.forStatement false c) := by
  have hbody {c : Cursor} {k : Stmt → StmtForm} (t : c.Room o n)
      (hk : ∀ s, (k s).openParts = [.stmt s]) : Narrowed o n Cursor.Halted False
        (fun f => AnyOpenIn f.openParts) ((do return k (← g.statement) : Parser StmtForm) true c)
        ((do return k (← g.statement) : Parser StmtForm) false c) :=
    (hg.statement t).bind (fun t => .pure t (by rw [hk, anyOpenIn_cons]; simp)) fun hc => .pure hc
  refine .skip t.consumeKeyword .consumeKeyword fun _ t => .skip t.eat .eat fun _ t => ?_
  refine .skip t.outer.consumeMark .consumeMark fun _ t => ?_
  refine .skip ((hg.same o).forStart (t.moved [.paren])).alone .of_const fun _ t => ?_
  refine .get (.ite (fun hs => ?_) fun _ => .ite (fun hs => ?_) fun _ => ?_)
  · refine .skip (same_forTarget t) .forTarget fun h t' => ?_
    obtain ⟨-, -, rfl⟩ := Accounts.forTarget h
    refine .skip (t'.outer.advance (Cursor.atEnd_of_sees hs)) .of_const fun _ t => ?_
    refine .skip ((hg.same o).enclosed (t.moved [])).alone .of_const fun _ t => ?_
    exact .skip t.outer.consumeMark .consumeMark fun _ t => hbody t fun _ => rfl
  · refine .skip (same_forTarget t) .forTarget fun h t' => ?_
    obtain ⟨-, -, rfl⟩ := Accounts.forTarget h
    refine .skip (t'.outer.advance (Cursor.atEnd_of_seesWord hs)) .of_const fun _ t => ?_
    refine .skip ((hg.same o).assignment (t.moved [])).alone .of_const fun _ t => ?_
    exact .skip t.outer.consumeMark .consumeMark fun _ t => hbody t fun _ => rfl
  · refine .skip t.outer.consumeMark .consumeMark fun _ t => ?_
    refine .skip ((hg.same o).exprBefore rfl (t.moved [])).alone .exprBefore fun _ t => ?_
    refine .skip t.outer.consumeMark .consumeMark fun _ t => ?_
    refine .skip ((hg.same o).exprBefore rfl (t.moved [])).alone .exprBefore fun _ t => ?_
    exact .skip t.outer.consumeMark .consumeMark fun _ t => hbody t fun _ => rfl

theorem whileStatement (t : c.Room o (n + 1)) : Narrowed o n Cursor.Halted False
    (fun f => AnyOpenIn f.openParts) (g.whileStatement true c) (g.whileStatement false c) := by
  refine .skip t.consumeKeyword .consumeKeyword fun _ t => ?_
  refine .skip ((hg.same o).condition (t.moved [])).alone .condition fun _ t => ?_
  exact (hg.statement t).bind (fun t => .pure t (by simp)) fun hc => .pure hc

theorem doWhileStatement (t : c.Room o (n + 1)) : Narrowed o n Cursor.Halted False
    (fun f => AnyOpenIn f.openParts) (g.doWhileStatement true c) (g.doWhileStatement false c) := by
  refine .skip t.consumeKeyword .consumeKeyword fun _ t => ?_
  refine (hg.statement t).bind (fun t => ?_) fun hc => .of_fails (hc.consumeKeyword rfl)
  refine .skip t.outer.consumeKeyword .consumeKeyword fun _ t => ?_
  refine .skip ((hg.same o).condition (t.moved [])).alone .condition fun _ t => ?_
  exact .skip t.semicolon .semicolon fun _ t => .pure t (by simp)

/-- No branch starts where reading halts. -/
theorem switchStatement (t : c.Room o (n + 1)) : Narrowed o n Cursor.Halted False
    (fun f => AnyOpenIn f.openParts) (g.switchStatement true c) (g.switchStatement false c) := by
  have htest {c : Cursor} (t : c.Room o n) : Narrowed o n Cursor.Halted False
      (fun e => AnyOpenIn (e.toList.map .expr)) (g.caseTest true c) (g.caseTest false c) := by
    refine .skip t.eat .eat fun _ t => .ite (fun _ => (hg.sequence t).map (by simp)) fun _ => ?_
    exact .skip t.eat .eat fun _ t => .ite (fun _ => .pure t (by simp)) fun _ => .fail
  have hcase {c : Cursor} (t : c.Room o n) : Narrowed o n Cursor.Halted False
      (fun b => AnyOpenIn b.parts) (g.switchCase true c) (g.switchCase false c) := by
    refine (htest t).bind (fun t => ?_) fun hc => .of_fails (hc.consumeMark rfl)
    refine .skip t.outer.consumeMark .consumeMark fun _ t => ?_
    refine (Narrowed.many (fun t _ => hg.statement t) (fun hc _ => hg.begins hc) t).bind
      (fun t => .pure t (by simp [SwitchCase.parts])) fun hc => .pure hc
  refine .skip t.consumeKeyword .consumeKeyword fun _ t => ?_
  refine .skip ((hg.same o).condition (t.moved [])).alone .condition fun _ t => ?_
  refine .skip t.outer.consumeMark .consumeMark fun _ t => ?_
  refine (Narrowed.many (fun t _ => hcase t) (fun hc _ => hc.switchCase) t).bind (fun t => ?_)
    fun hc => .of_fails (hc.consumeMark rfl)
  exact .skip t.outer.consumeMark .consumeMark fun _ t => .pure t (by simp)

theorem returnStatement (t : c.Room o (n + 1)) : Narrowed o n Cursor.Halted False
    (fun f => AnyOpenIn f.openParts) (g.returnStatement true c) (g.returnStatement false c) := by
  have hvalue {c : Cursor} (t : c.Room o n) : Narrowed o n Cursor.Halted False
      (fun e => AnyOpenIn (e.toList.map .expr)) (g.returnValue true c) (g.returnValue false c) :=
    .get (.ite (fun _ => .pure t (by simp)) fun _ => (hg.sequence t).map (by simp))
  refine .skip t.consumeKeyword .consumeKeyword fun _ t => (hvalue t).bind (fun t => ?_) ?_
  · exact .skip t.semicolon .semicolon fun _ t => .pure t (by simp)
  · exact fun hc => (hc.semicolon hc).bind fun hc => .pure hc

theorem throwStatement (t : c.Room o (n + 1)) : Narrowed o n Cursor.Halted False
    (fun f => AnyOpenIn f.openParts) (g.throwStatement true c) (g.throwStatement false c) := by
  refine .skip t.consumeKeyword .consumeKeyword fun _ t => .get (.ite (fun _ => ?_) fun _ => ?_)
  · exact .error (by simp) (by simp)
  · refine (hg.sequence t).bind (fun t => .skip t.semicolon .semicolon fun _ t => ?_)
      fun hc => (hc.semicolon hc).bind fun hc => .pure hc
    exact .pure t (by simp)

theorem tryStatement (t : c.Room o (n + 1)) : Narrowed o n h False
    (fun f => AnyOpenIn f.openParts) (g.tryStatement true c) (g.tryStatement false c) := by
  have hparam {c : Cursor} (t : c.Room o n) : Narrowed o n (fun _ => False) False
      (fun p => AnyOpenIn (p.toList.map .pattern)) (g.catchParam true c)
      (g.catchParam false c) := by
    refine .skip t.eat .eat fun _ t => .ite (fun _ => ?_) fun _ => .pure t (by simp)
    refine (hg.pattern t).andThen fun t => ?_
    exact .skip t.outer.consumeMark .consumeMark fun _ t => .pure t (by simp)
  have hhandler {c : Cursor} (t : c.Room o n) : Narrowed o n (fun _ => False) False
      (fun x => AnyOpenIn x.parts) (g.handler true c) (g.handler false c) := by
    refine .skip t.eat .eat fun _ t => .ite (fun _ => ?_) fun _ => .pure t (by simp [Handler.parts])
    refine (hparam t).andThen fun t => (hg.block t.outer).also.andThen fun t => .pure t ?_
    simp [Handler.parts]
  refine .skip t.consumeKeyword .consumeKeyword fun _ t => (hg.block t.outer).andThen fun t => ?_
  refine (hhandler t).also.andThen fun {k _} t => ?_
  refine (Narrowed.after (fun t => hg.block t.outer) t).andThen fun {finalizer _} t => ?_
  cases k with
  | nothing =>
    cases finalizer with
    | none => exact .fail
    | some _ => exact .pure t (by simp [or_assoc])
  | «catch» _ _ => exact .pure t (by simp [or_assoc])

theorem labeledStatement (t : c.Room o (n + 1)) : Narrowed o n Cursor.Halted False
    (fun f => AnyOpenIn f.openParts) (g.labeledStatement true c) (g.labeledStatement false c) := by
  refine .skip t.ident .ident fun _ t => .skip t.outer.consumeMark .consumeMark fun _ t => ?_
  exact (hg.statement t).bind (fun t => .pure t (by simp)) fun hc => .pure hc

theorem expressionStatement (t : c.Room o (n + 1)) : Narrowed o n Cursor.Halted False
    (fun f => AnyOpenIn f.openParts) (g.expressionStatement true c)
    (g.expressionStatement false c) := by
  refine (hg.fullExpression t).bind (fun t => .skip t.semicolon .semicolon fun _ t => ?_)
    fun hc => (hc.semicolon hc).bind fun hc => .pure hc
  exact .pure t (by simp)

theorem simpleStatement (t : c.Room o (n + 1)) : Narrowed o n Cursor.Halted False
    (fun f => AnyOpenIn f.openParts) (g.simpleStatement true c) (g.simpleStatement false c) := by
  have hjump {word : Keyword} {k : Option Ident → StmtForm}
      (hw : TokenKind.steady (.keyword word) = true) (hk : ∀ l, (k l).openParts = []) :
      Narrowed o n Cursor.Halted False (fun f => AnyOpenIn f.openParts)
        ((k <$> jumpLabel word) true c) ((k <$> jumpLabel word) false c) :=
    (Narrowed.of_same (Lockstep.Parts.jumpLabel hw (t.fresh [])).alone .jumpLabel).map fun l => by
      rw [hk]
      simp
  refine .get ?_
  generalize c.current.kind = kind
  split
  · exact (hg.block t).andThen fun t => .pure t (by simp [Block.parts])
  · exact hg.ifStatement t
  · exact hg.forStatement t
  · exact hg.whileStatement t
  · exact hg.doWhileStatement t
  · exact hg.switchStatement t
  · exact hg.returnStatement t
  · exact hjump rfl fun _ => rfl
  · exact hjump rfl fun _ => rfl
  · exact hg.throwStatement t
  · exact hg.tryStatement t
  · exact .skip t.consumeKeyword .consumeKeyword fun _ t => .skip t.semicolon .semicolon fun _ t =>
      .pure t (by simp)
  · exact .skip t.consumeMark .consumeMark fun _ t => .pure t (by simp)
  · exact .fail
  · exact .fail
  · refine .ite (fun _ => .fail) fun _ => .ite (fun _ => ?_) fun _ => ?_
    · exact hg.labeledStatement t
    · exact hg.expressionStatement t

theorem readStatement (t : c.Room o (n + 1)) : Narrowed o n Cursor.Halted False
    (fun s => (Visit.stmt s).OpenIn) (g.readStatement true c) (g.readStatement false c) := by
  have hform : Narrowed o n Cursor.Halted False (fun f => AnyOpenIn f.openParts)
      (g.statementForm true c) (g.statementForm false c) := by
    rcases hg.declaration? t with hd | hnone
    · refine hd.bind (fun {decl _} t => ?_) fun {decl _} hc => ?_
      · cases decl with
        | some decl => exact .pure t (by simp)
        | none => exact (hg.simpleStatement t.outer).congr (by simp) fun _ => Iff.rfl
      · cases decl with
        | some decl => exact .pure hc
        | none => exact fun x c' hr => (hc.simpleStatement x c' hr).elim
    · rw [statementForm, bind_apply, bind_apply, hnone, hnone]
      exact hg.simpleStatement t
  exact .here (hform.withSpan (by simp))

theorem step : g.step.Narrows (n + 1) where
  same o := (hg.same o).step (targets_twice o _)
  accounts := hg.accounts.step
  expression hp t := (hg.readExpression hp t).outer
  primary t := (hg.primaryExpression t).outer
  pattern t := (hg.readPattern t).outer
  statement t := (hg.readStatement t).outer
  begins hc := hc.readStatement

end Grammar.Narrows

namespace Grammar
open ModuleBundler.Parser

theorem narrows_nested {k : Nat} (hk : n ≤ k) : (nested k).Narrows n := by
  have begins (k : Nat) {c : Cursor} (hc : c.Halted) :
      Ends (fun _ => False) (nested k).statement c := by
    cases k with
    | zero => rintro x c' ⟨⟩
    | succ k => exact hc.readStatement
  induction n generalizing k with
  | zero =>
    have none {o c : Cursor} (t : c.Room o 0) : False := Nat.not_lt_zero _ t.ahead
    exact ⟨same_nested hk hk, accounts_nested k, fun _ t => (none t).elim,
      fun t => (none t).elim, fun t => (none t).elim, fun t => (none t).elim, begins k⟩
  | succ n ih =>
    obtain ⟨k, rfl⟩ := Nat.exists_eq_add_of_lt hk
    exact (ih (Nat.le_add_right ..)).step

/-- Where `in` is no operator, an expression can be read up to a place exactly if it can be read up
to there where `in` is an operator and none stands open in it, and it is the same. -/
theorem assignment_withoutIn {k : Nat} {e : Expr} (hc : c.Ended) (hk : c.ahead.length < k)
    (hh : ¬ c'.Halted) : (nested k).assignment false c = .ok e c' ↔
      (nested k).assignment true c = .ok e c' ∧ ¬ (Visit.expr e).OpenIn :=
  ((narrows_nested hk).assignment (.start hc)).ok_iff hh

/-- The head of a loop starts with what could be read if `in` were an operator there, exactly if
none stands open in that. -/
theorem forStart_withoutIn {k : Nat} {s : ForStart} (hc : c.Ended) (hk : c.ahead.length < k)
    (hh : ¬ c'.Halted) : (nested k).forStart false c = .ok s c' ↔
      (nested k).forStart true c = .ok s c' ∧ ¬ AnyOpenIn s.parts :=
  ((narrows_nested hk).forStart (.start hc)).ok_iff hh

end Grammar
end ModuleBundler
