import ModuleBundler.Proofs.Grammar.Narrow

/-! The readers of names, lists, patterns, functions, classes and expressions with `in` as an
operator and with `in` as the mark of a loop. -/
namespace ModuleBundler

variable {n : Nat} {h : Cursor → Prop} {c c' : Cursor} {b : Bool} {g : Grammar}

namespace Parser.Flagless
open ModuleBundler.Grammar

theorem propertyKey : Flagless g.propertyKey := by
  refine .get fun c => ?_
  split
  iterate 3 exact of_const
  · exact propertyName.bind fun _ => of_const
  · exact consumeMark.bind fun _ => of_const.bind fun _ => consumeMark.bind fun _ => of_const
  · exact propertyName.bind fun _ => of_const

theorem functionTail {name : Option Ident} {isAsync isGenerator : Bool} :
    Flagless (g.functionTail name isAsync isGenerator) := of_const

theorem declaredName {nameOptional : Bool} {missing : Fault} :
    Flagless (declaredName nameOptional missing) :=
  .get fun _ => .ite (ident.bind fun _ => of_const) (.ite of_const of_const)

theorem function {nameOptional : Bool} : Flagless (g.function nameOptional) :=
  eatWord.bind fun _ => consumeKeyword.bind fun _ => eat.bind fun _ => declaredName.bind fun _ =>
    functionTail

theorem methodOrField {isStatic : Bool} : Flagless (g.methodOrField isStatic) := by
  refine modifiers.bind fun _ => propertyKey.bind fun _ => .get fun _ => .ite ?_ (.ite of_const ?_)
  · exact functionTail.bind fun _ => .ite of_const of_const
  · exact (after of_const).bind fun _ => semicolon.bind fun _ => of_const

theorem classMember? : Flagless g.classMember? := by
  refine eat.bind fun _ => .ite of_const (bind ?_ fun _ => of_const)
  exact modifier.bind fun _ => .get fun _ => .ite of_const methodOrField

theorem arguments : Flagless g.arguments :=
  consumeMark.bind fun _ => of_const.bind fun _ => consumeMark.bind fun _ => of_const

theorem indexTail : Flagless g.indexTail :=
  of_const.bind fun _ => consumeMark.bind fun _ => of_const

end Parser.Flagless

theorem Cursor.Halted.precedence (hc : c.Halted) : c.current.precedence false = 0 := by
  rw [Cursor.Halted] at hc
  rw [Token.precedence]
  generalize c.current.kind = kind at hc ⊢
  unfold TokenKind.halts at hc
  split at hc
  · rfl
  · rfl
  · cases hc

namespace Grammar
open ModuleBundler.Parser

/-- An expression in parentheses with no arrow behind them. -/
def parenthesized (g : Grammar) (start : Span) : Parser Expr := do
  consumeMark .lParen
  let inner ← g.enclosed
  consumeMark .rParen
  return ⟨← spanFrom start, .paren inner⟩

/-- The readers of parts read the same with `in` as the mark of a loop, from all places with fewer
than `n` tokens left, unless an `in` stands open in what they read. -/
structure Narrows (n : Nat) (g : Grammar) : Prop where
  same : SameWithin n g g
  accounts : g.Accounts
  expression : ∀ {o p c}, p ≤ 17 → c.Room o n → Narrowed o n Cursor.Halted False
    (fun e => (Visit.expr e).OpenIn) (g.expression p true c) (g.expression p false c)
  primary : ∀ {o c}, c.Room o n → Narrowed o n Cursor.Held False
    (fun e => (Visit.expr e).OpenIn) (g.primary true c) (g.primary false c)
  pattern : ∀ {h o c}, c.Room o n → Narrowed o n h False
    (fun p => (Visit.pattern p).OpenIn) (g.pattern true c) (g.pattern false c)
  statement : ∀ {o c}, c.Room o n → Narrowed o n Cursor.Halted False
    (fun s => (Visit.stmt s).OpenIn) (g.statement true c) (g.statement false c)
  begins : ∀ {c}, c.Halted → Ends (fun _ => False) g.statement c

namespace Narrows
variable (hg : g.Narrows n)

/-! ## Patterns and parameters -/

theorem commaSequence {item : Parser Expr}
    (first : Narrowed o n Cursor.Halted False (fun e => (Visit.expr e).OpenIn) (item true c)
      (item false c))
    (items : ∀ {c}, c.Room o n → Narrowed o n Cursor.Halted False (fun e => (Visit.expr e).OpenIn)
      (item true c) (item false c)) :
    Narrowed o n Cursor.Halted False (fun e => (Visit.expr e).OpenIn) (commaSequence item true c)
      (commaSequence item false c) := by
  refine first.bind (fun t => .get (.ite (fun _ => ?_) fun _ => .pure t Iff.rfl)) fun hc => ?_
  · refine .withSpan (.many (fun t _ => .skip t.outer.consumeMark .consumeMark fun _ t => items t)
      (fun hc hs => (hc.not_sees rfl hs).elim) t) fun _ _ => ?_
    simp
  · exact .get (.otherwise (hc.sees rfl) (.pure hc))

include hg

theorem assignment (t : c.Room o n) : Narrowed o n Cursor.Halted False
    (fun e => (Visit.expr e).OpenIn) (g.assignment true c) (g.assignment false c) :=
  hg.expression (by decide) t

theorem sequence (t : c.Room o n) : Narrowed o n Cursor.Halted False
    (fun e => (Visit.expr e).OpenIn) (Grammar.commaSequence g.assignment true c)
    (Grammar.commaSequence g.assignment false c) :=
  commaSequence (hg.assignment t) hg.assignment

theorem defaultFor {p : Pattern} (t : c.Room o n) : Narrowed o n Cursor.Halted
    (Visit.pattern p).OpenIn (fun p => (Visit.pattern p).OpenIn) (g.defaultFor p true c)
    (g.defaultFor p false c) := by
  refine .skip t.eat .eat fun _ t => .ite (fun _ => ?_) fun _ => .pure t Iff.rfl
  exact (hg.assignment t).also.bind (fun t => .pure t (by simp)) fun hc => .pure hc

theorem patternWithDefault (t : c.Room o n) : Narrowed o n Cursor.Halted False
    (fun p => (Visit.pattern p).OpenIn) (g.patternWithDefault true c)
    (g.patternWithDefault false c) :=
  (hg.pattern t).andThen fun t => hg.defaultFor t

theorem arrayPattern (t : c.Room o (n + 1)) : Narrowed o n h False
    (fun f => AnyOpenIn f.openParts) (g.arrayPattern true c) (g.arrayPattern false c) := by
  refine .skip t.consumeMark .consumeMark fun _ t => ?_
  refine (Narrowed.many (h := fun _ => False) (s := fun p => ∃ p' ∈ p, (Visit.pattern p').OpenIn)
    (fun t _ => ?_) (fun h => h.elim) t).andThen fun t => ?_
  · refine .skip t.eat .eat fun _ t => .ite (fun _ => .pure t (by simp)) fun _ => ?_
    refine (hg.patternWithDefault t).bind (fun t => ?_) fun hc => .of_fails (hc.separator rfl)
    exact .skip t.separator .separator fun _ t => .pure t (by simp)
  · refine (Narrowed.after hg.pattern t).andThen fun t => ?_
    exact .skip t.outer.consumeMark .consumeMark fun _ t => .pure t (by simp)

theorem objectPattern (t : c.Room o (n + 1)) : Narrowed o n h False
    (fun f => AnyOpenIn f.openParts) (g.objectPattern true c) (g.objectPattern false c) := by
  have hkeyed {key : PropertyKey} {c : Cursor} (t : c.Room o n) : Narrowed o n Cursor.Halted False
      (fun p => (Visit.pattern p.value).OpenIn) (g.keyedPattern key true c)
      (g.keyedPattern key false c) := by
    refine .skip t.eat .eat fun _ t => .ite (fun _ => ?_) fun _ => ?_
    · exact (hg.patternWithDefault t).bind (fun t => .pure t Iff.rfl) fun hc => .pure hc
    · cases shorthandName? key with
      | none => exact .fail
      | some i =>
        refine ((hg.defaultFor t).congr ?_ fun _ => Iff.rfl).bind (fun t => .pure t Iff.rfl)
          fun hc => .pure hc
        simp
  refine .skip t.consumeMark .consumeMark fun _ t => ?_
  refine (Narrowed.many (h := fun _ => False) (s := fun p => (Visit.pattern p.value).OpenIn)
    (fun t _ => ?_) (fun h => h.elim) t).andThen fun t => ?_
  · refine .skip ((hg.same o).propertyKey (t.outer.fresh [])).alone .propertyKey fun _ t => ?_
    refine (hkeyed t).bind (fun t => ?_) fun hc => .of_fails (hc.separator rfl)
    exact .skip t.separator .separator fun _ t => .pure t Iff.rfl
  · refine (Narrowed.after hg.pattern t).andThen fun t => ?_
    exact .skip t.outer.consumeMark .consumeMark fun _ t => .pure t (by simp)

theorem readPattern (t : c.Room o (n + 1)) : Narrowed o n h False
    (fun p => (Visit.pattern p).OpenIn) (g.readPattern true c) (g.readPattern false c) := by
  have hform {h : Cursor → Prop} : Narrowed o n h False (fun f => AnyOpenIn f.openParts)
      (g.patternForm true c) (g.patternForm false c) := by
    refine .get ?_
    generalize c.current.kind = kind
    split
    · exact hg.arrayPattern t
    · exact hg.objectPattern t
    · exact (Narrowed.of_same t.ident .ident).map (by simp)
    · exact .unexpected
  exact .here (.withSpan hform (by simp))

theorem params (t : c.Room o (n + 1)) : Narrowed o n h False
    (fun ps => AnyOpenIn (paramParts ps)) (g.params true c) (g.params false c) := by
  refine .skip t.consumeMark .consumeMark fun _ t => ?_
  refine (Narrowed.commaList (s := fun p => (Visit.pattern p.pattern).OpenIn) rfl (fun t => ?_)
    t).congr Iff.rfl (by simp [paramParts])
  refine .skip t.eat .eat fun _ t => .ite (fun _ => ?_) fun _ => ?_
  · exact (hg.pattern t).andThen fun t => .pure t Iff.rfl
  · exact (hg.patternWithDefault t).bind (fun t => .pure t Iff.rfl) fun hc => .pure hc

/-! ## Blocks and classes -/

/-- No statement starts where reading halts, so that a block does not halt inside. -/
theorem block (t : c.Room o (n + 1)) : Narrowed o n h False
    (fun b => AnyOpenIn b.parts) (g.block true c) (g.block false c) := by
  refine .here (.skip t.consumeMark .consumeMark fun _ t => ?_)
  refine (Narrowed.many (fun t _ => hg.statement t) (fun hc _ => hg.begins hc) t).bind
    (fun t => ?_) fun hc => .of_fails (hc.consumeMark rfl)
  refine .skip t.outer.consumeMark .consumeMark fun _ t => ?_
  exact .skip t.spanFrom .of_const fun _ t => .pure t (by simp [Block.parts])

theorem classDef {nameOptional : Bool} (t : c.Room o (n + 1)) : Narrowed o n h False
    (fun cls => AnyOpenIn cls.openParts) (g.classDef nameOptional true c)
    (g.classDef nameOptional false c) := by
  refine .skip t.consumeKeyword .consumeKeyword fun _ t => ?_
  refine .skip (Lockstep.Parts.declaredName _ _ (t.moved [])).alone .declaredName fun _ t => ?_
  refine (Narrowed.after (hg.expression (Nat.le_refl 17)) t).bind (fun t => ?_)
    fun hc => .of_fails (hc.consumeMark rfl)
  refine .skip t.outer.consumeMark .consumeMark fun _ t => ?_
  have hmember {c : Cursor} (t : c.Room o n) :
      Same o n (g.classMember? true c) (g.classMember? true c) :=
    ((hg.same o).classMember? (t.outer.fresh [.curly])).alone
  refine (Narrowed.manyUntil (fun t => .of_same (hmember t) .classMember?) t).andThen fun t => ?_
  exact .skip t.outer.consumeMark .consumeMark fun _ t => .pure t (by simp)

/-! ## Expressions -/

theorem spreadOrAssignment (t : c.Room o n) : Narrowed o n Cursor.Halted False
    (fun e => (Visit.expr e).OpenIn) (g.spreadOrAssignment true c)
    (g.spreadOrAssignment false c) := by
  refine .here (.skip t.eat .eat fun _ t => .ite (fun _ => ?_) fun _ => hg.assignment t)
  exact (hg.assignment t).bind (fun t => .pure t (by simp)) fun hc => .pure hc

theorem template (t : c.Room o (n + 1)) (hend : c.atEnd = false) :
    Narrowed o n h False (fun _ => False) (g.template true c) (g.template false c) := by
  have hpart {c : Cursor} (t : c.Room o (n + 1)) (hend : c.atEnd = false) :
      Narrowed o n (fun _ => False) False (fun _ => False) (g.templatePart true c)
        (g.templatePart false c) := by
    refine .of_same ((t.advance hend).bind fun _ t => ?_) fun _ => rfl
    exact ((hg.same o).enclosed (t.moved [])).alone.bind fun _ t => .pure t
  refine .get (.ite (fun _ => ?_) fun _ => (hpart t hend).andThen fun t => ?_)
  · exact .skip (t.advance hend) .of_const fun _ t => .pure t Iff.rfl
  refine (Narrowed.many (fun t hs => hpart t.outer (Cursor.atEnd_of_sees hs)) (fun h => h.elim)
    t).andThen fun t => .get (.ite (fun hs => ?_) fun _ => .fail)
  exact .skip (t.outer.advance (Cursor.atEnd_of_sees hs)) .of_const fun _ t => .pure t (by simp)

theorem continueWith {left : Expr} {k : Continuation} (t : c.Room o n)
    (hk : Continuation.ofToken? c.current.kind = some k) (hin : k ≠ .binary .isIn) :
    Narrowed o n Cursor.Halted (Visit.expr left).OpenIn ExprForm.OpenIn
      (g.continueWith left (c.current.precedence true) k true c)
      (g.continueWith left (c.current.precedence true) k false c) := by
  have hend : c.atEnd = false := by
    simpa [Cursor.atEnd] using (Continuation.neutral_of_ofToken? hk).1
  have hadvance := t.outer.advance (b := true) hend
  cases k with
  | assignment op =>
    refine .skip hadvance .of_const fun _ t => ?_
    exact (hg.assignment t).also.bind (fun t => .pure t (by simp)) fun hc => .pure hc
  | conditional =>
    refine .skip hadvance .of_const fun _ t => ?_
    refine .skip ((hg.same o).assignment (t.moved [])).alone .of_const fun _ t => ?_
    refine .skip t.outer.consumeMark .consumeMark fun _ t => ?_
    exact (hg.assignment t).also.bind (fun t => .pure t (by simp)) fun hc => .pure hc
  | binary op =>
    have hop : op.rightPrecedence (c.current.precedence true) ≤ 17 := by
      have hle : c.current.precedence true ≤ 14 := Token.precedence_binary hk
      unfold BinaryOp.rightPrecedence
      split <;> omega
    refine .skip hadvance .of_const fun _ t => ?_
    refine (hg.expression hop t).also.bind (fun t => .pure t ?_) fun hc => .pure hc
    cases op <;> simp_all
  | increment op => exact .skip hadvance .of_const fun _ t => .pure t (by simp)
  | member =>
    refine .skip hadvance .of_const fun _ t => ?_
    exact .skip t.outer.propertyName .propertyName fun _ t => .pure t (by simp)
  | optional =>
    refine .skip hadvance .of_const fun _ t => ?_
    refine .get (.ite (fun _ => ?_) fun _ => .skip t.eat .eat fun _ t => .ite (fun _ => ?_) ?_)
    · exact .skip ((hg.same o).arguments (t.moved [])).alone .arguments fun _ t => .pure t (by simp)
    · exact .skip ((hg.same o).indexTail (t.moved [.square])).alone .indexTail fun _ t =>
        .pure t (by simp)
    · exact fun _ => .skip t.outer.propertyName .propertyName fun _ t => .pure t (by simp)
  | index =>
    refine .skip hadvance .of_const fun _ t => ?_
    exact .skip ((hg.same o).indexTail (t.moved [.square])).alone .indexTail fun _ t =>
      .pure t (by simp)
  | call =>
    exact .skip ((hg.same o).arguments (t.moved [])).alone .arguments fun _ t => .pure t (by simp)
  | template =>
    refine (hg.template t.outer hend).also.andThen fun t => .pure t ?_
    simp

theorem arrayLiteral (t : c.Room o (n + 1)) : Narrowed o n h False ExprForm.OpenIn
    (g.arrayLiteral true c) (g.arrayLiteral false c) := by
  refine .skip t.consumeMark .consumeMark fun _ t => ?_
  refine (Narrowed.manyUntil (s := fun e => ∃ e' ∈ e, (Visit.expr e').OpenIn) (fun t => ?_)
    t).andThen fun t => .skip t.outer.consumeMark .consumeMark fun _ t => .pure t (by simp)
  refine .skip t.eat .eat fun _ t => .ite (fun _ => .pure t (by simp)) fun _ => ?_
  refine (hg.spreadOrAssignment t).bind (fun t => ?_) fun hc => .of_fails (hc.separator rfl)
  exact .skip t.separator .separator fun _ t => .pure t (by simp)

theorem objectLiteral (t : c.Room o (n + 1)) : Narrowed o n h False ExprForm.OpenIn
    (g.objectLiteral true c) (g.objectLiteral false c) := by
  have hmember {c : Cursor} (t : c.Room o n) : Narrowed o n Cursor.Halted False
      (fun m => AnyOpenIn m.openParts) (g.propertyOrMethod true c)
      (g.propertyOrMethod false c) := by
    refine .skip t.modifiers .modifiers fun _ t => ?_
    refine .skip ((hg.same o).propertyKey (t.outer.fresh [])).alone .propertyKey fun {k _} _ t => ?_
    refine .get (.ite (fun _ => ?_) fun _ => .ite (fun _ => .fail) fun _ => ?_)
    · exact .skip ((hg.same o).functionTail .none _ _ (t.moved [])).alone .functionTail fun _ t =>
        .pure t (by simp)
    refine .skip t.eat .eat fun _ t => .ite (fun _ => ?_) fun _ => ?_
    · exact (hg.assignment t).bind (fun t => .pure t (by simp)) fun hc => .pure hc
    · cases k with
      | name i => exact .pure t (by simp)
      | _ => exact .fail
  refine .skip t.consumeMark .consumeMark fun _ t => ?_
  refine (Narrowed.commaList (s := fun m => AnyOpenIn m.openParts) rfl (fun t => ?_) t).andThen
    fun t => .pure t (by simp)
  refine .skip t.eat .eat fun _ t => .ite (fun _ => ?_) fun _ => hmember t
  exact (hg.assignment t).bind (fun t => .pure t (by simp)) fun hc => .pure hc

theorem arrowTail {start : Span} {ps : List Param} {isAsync : Bool} (t : c.Room o (n + 1)) :
    Narrowed o n Cursor.Halted (AnyOpenIn (paramParts ps)) (fun e => (Visit.expr e).OpenIn)
      (g.arrowTail start ps isAsync true c) (g.arrowTail start ps isAsync false c) := by
  have hbody {c : Cursor} (t : c.Room o n) : Narrowed o n Cursor.Halted (AnyOpenIn (paramParts ps))
      ExprForm.OpenIn (g.arrowBody ps isAsync true c) (g.arrowBody ps isAsync false c) := by
    refine .get (.ite (fun _ => ?_) fun _ => ?_)
    · exact (hg.block t.outer).also.map (by simp)
    · exact (hg.assignment t).also.map (by simp)
  exact .skip t.consumeMark .consumeMark fun _ t => .withSpan (hbody t) (by simp)

omit hg in
theorem params_group (hg : g.Accounts) {ps : List Param} (hc : c.Ended)
    (hp : g.params b c = .ok ps c') : c.Group c' := by
  simp only [Grammar.params, commaList, Parser.manyUntil, bind_ok, pure_ok] at hp
  obtain ⟨_, _, h₁, ps, d, h₂, _, _, h₃, rfl, rfl⟩ := hp
  obtain ⟨hs₁, rfl⟩ := consumeMark_ok h₁
  obtain ⟨hs₃, rfl⟩ := consumeMark_ok h₃
  exact Cursor.group_of_takes hc hs₁ (separated_takes Param.visits Param.outlines hg.param h₂) hs₃

omit hg in
theorem arguments_group (hg : g.Accounts) {args : List Expr} (hc : c.Ended)
    (ha : g.arguments b c = .ok args c') : c.Group c' := by
  simp only [Grammar.arguments, Parser.manyUntil, bind_ok, withIn_apply, pure_ok] at ha
  obtain ⟨_, _, h₁, args, d, h₂, _, _, h₃, rfl, rfl⟩ := ha
  obtain ⟨hs₁, rfl⟩ := consumeMark_ok h₁
  obtain ⟨hs₃, rfl⟩ := consumeMark_ok h₃
  have inside := separated_takes Expr.visits (fun e => [e.outline])
    (fun h => (hg.spreadOrAssignment h).takes) h₂
  exact Cursor.group_of_takes hc hs₁ inside hs₃

omit hg in
/-- Arguments that are read up to an arrow halt there. -/
theorem arguments_halted (hg : g.Accounts) {args : List Expr} {d : Cursor} (hend : c.Ended)
    (hc : c.Group d) (hk : d.current.kind = .punct .fatArrow)
    (ha : g.arguments b c = .ok args c') : c'.Halted := by
  cases (arguments_group hg hend ha).unique hc
  rw [Cursor.Halted, hk]
  rfl

/-- If the parameters of an arrow function can be read both ways or neither way, they are the same.
Otherwise an `in` stands open in them, and their parentheses are closed before an arrow. -/
theorem arrowParams (t : c.Room o (n + 1)) :
    (∃ ps c', c'.Room o n ∧ ¬ AnyOpenIn (paramParts ps) ∧
      g.arrowParams true c = .ok (some ps) c' ∧ g.arrowParams false c = .ok (some ps) c') ∨
    (g.arrowParams true c = .ok none c ∧ g.arrowParams false c = .ok none c) ∨
    ∃ ps c', c'.Room o n ∧ AnyOpenIn (paramParts ps) ∧ c.Group c' ∧
      c'.current.kind = .punct .fatArrow ∧
      g.arrowParams true c = .ok (some ps) c' ∧ g.arrowParams false c = .ok none c := by
  have hp := hg.params (h := fun _ => False) t
  have none_of_error {b : Bool} (h : ∀ ps c', g.params b c ≠ .ok ps c') :
      g.arrowParams b c = .ok none c := by
    rw [Grammar.arrowParams]
    cases hr : g.params b c with
    | ok ps c' => exact (h ps c' hr).elim
    | error e c' => rfl
  have of_ok {b : Bool} {ps : List Param} {c' : Cursor} (h : g.params b c = .ok ps c') :
      g.arrowParams b c = if c'.seesMark .fatArrow && !c'.current.newlineBefore
        then .ok (some ps) c' else .ok none c := by rw [Grammar.arrowParams, h]
  cases h : g.params true c with
  | ok ps c' =>
    have t' := hp.room (.inl h)
    rw [of_ok h]
    by_cases hs : AnyOpenIn (paramParts ps)
    · have hfalse : g.arrowParams false c = .ok none c := none_of_error fun qs d hq => by
        obtain ⟨hqs, hq⟩ := hp.stops hq id
        cases h.symm.trans (hq.resolve_right id)
        exact hqs hs
      split
      · next ha =>
        refine .inr (.inr ⟨ps, c', t', hs, params_group hg.accounts t.ended h, ?_, rfl, hfalse⟩)
        exact Cursor.kind_of_sees (Bool.and_eq_true_iff.mp ha).1
      · exact .inr (.inl ⟨rfl, hfalse⟩)
    · rw [of_ok (hp.keeps h hs).2]
      split
      · exact .inl ⟨ps, c', t', hs, rfl, rfl⟩
      · exact .inr (.inl ⟨rfl, rfl⟩)
  | error e c' =>
    have herror {b : Bool} (ps : List Param) (d : Cursor) : g.params b c ≠ .ok ps d := by
      intro hd
      cases b with
      | true => exact absurd (h.symm.trans hd) (by rintro ⟨⟩)
      | false =>
        have := (hp.stops hd id).2.resolve_right id
        exact absurd (h.symm.trans this) (by rintro ⟨⟩)
    exact .inr (.inl ⟨none_of_error herror, none_of_error herror⟩)

/-- Without the arrow function the word `async` is a name, with parentheses before an arrow. -/
theorem asyncCallOrArrow {start : Span} (t : c.Room o (n + 1)) (hend : c.atEnd = false) :
    Narrowed o n Cursor.Held False (fun e => (Visit.expr e).OpenIn)
      (g.asyncCallOrArrow start true c) (g.asyncCallOrArrow start false c) := by
  have hident : Narrowed o n Cursor.Held False (fun e => (Visit.expr e).OpenIn) (identExpr true c)
      (identExpr false c) :=
    (Narrowed.of_same t.ident .ident).andThen fun t => .pure t (by simp)
  rw [Grammar.asyncCallOrArrow, Grammar.asyncCallOrArrow]
  rcases hg.arrowParams (t.next hend).outer with
    ⟨ps, c', t', hs, h, h'⟩ | ⟨h, h'⟩ | ⟨ps, c', t', hs, hgroup, hk, h, h'⟩
  · rw [h, h']
    exact ((hg.arrowTail t'.outer).mono .inl).congr (by simp [hs]) fun _ => Iff.rfl
  · rw [h, h']
    exact hident
  · rw [h, h']
    refine .of_open hs (hg.arrowTail t'.outer) hident fun hr => ?_
    simp only [Grammar.identExpr, Parser.ident, bind_ok, pure_ok] at hr
    obtain ⟨_, _, ⟨_, _, hi, -, rfl⟩, -, rfl⟩ := hr
    rw [(consume_ok hi).2.2]
    exact .inr ⟨(t.next hend).ended, c', hgroup, hk⟩

theorem bareArrow {start : Span} {isAsync : Bool} (t : c.Room o (n + 1)) :
    Narrowed o n Cursor.Halted False (fun e => (Visit.expr e).OpenIn)
      ((do g.arrowTail start [← bareParam] isAsync : Parser Expr) true c)
      ((do g.arrowTail start [← bareParam] isAsync : Parser Expr) false c) := by
  have hparam : Narrowed o n (fun _ => False) False (fun p => AnyOpenIn (paramParts [p]))
      (bareParam true c) (bareParam false c) :=
    (Narrowed.of_same t.ident .ident).andThen fun t => .pure t (by simp [paramParts])
  exact hparam.andThen fun t => hg.arrowTail t.outer

theorem identifierExpression (t : c.Room o (n + 1)) (hend : c.atEnd = false) :
    Narrowed o n Cursor.Held False (fun e => (Visit.expr e).OpenIn) (g.identifierExpression true c)
      (g.identifierExpression false c) := by
  have hident : Narrowed o n Cursor.Held False (fun e => (Visit.expr e).OpenIn) (identExpr true c)
      (identExpr false c) :=
    (Narrowed.of_same t.ident .ident).andThen fun t => .pure t (by simp)
  refine .get (.ite (fun _ => (hg.bareArrow t).mono .inl) fun _ => .ite ?_ fun _ => hident)
  intro _
  generalize c.secondKind? = second
  split
  · exact .skip ((hg.same o).function _ (t.fresh [])).alone .function fun _ t =>
      .skip t.spanFrom .of_const fun _ t => .pure t (by simp)
  · refine .ite (fun _ => ?_) fun _ => hident
    exact .skip (t.advance hend) .of_const fun _ t => (hg.bareArrow t.outer).mono .inl
  · exact hg.asyncCallOrArrow t hend
  · exact hident

theorem parenthesized {start : Span} {h : Cursor → Prop} (t : c.Room o (n + 1)) :
    Narrowed o n h False (fun e => (Visit.expr e).OpenIn) (g.parenthesized start true c)
      (g.parenthesized start false c) :=
  .skip t.consumeMark .consumeMark fun _ t =>
    .skip ((hg.same o).enclosed (t.moved [])).alone .of_const fun _ t =>
      .skip t.outer.consumeMark .consumeMark fun _ t =>
        .skip t.spanFrom .of_const fun _ t => .pure t (by simp)

theorem parenthesized_group {start : Span} {e : Expr} (hc : c.Ended)
    (h : g.parenthesized start false c = .ok e c') : c.Group c' := by
  simp only [Grammar.parenthesized, bind_ok, spanFrom_ok, pure_ok] at h
  obtain ⟨_, _, h₁, e, d, he, _, _, h₃, _, _, ⟨-, rfl⟩, -, rfl⟩ := h
  obtain ⟨hs₁, rfl⟩ := consumeMark_ok h₁
  obtain ⟨hs₃, rfl⟩ := consumeMark_ok h₃
  exact Cursor.group_of_takes hc hs₁ (hg.accounts.enclosed he).takes hs₃

/-- An expression in parentheses is read to where the parameters of an arrow function end. -/
theorem parenExpression (t : c.Room o (n + 1)) : Narrowed o n Cursor.Halted False
    (fun e => (Visit.expr e).OpenIn) (g.parenExpression true c) (g.parenExpression false c) := by
  refine .here ?_
  generalize c.current.span = start
  rw [bind_apply, bind_apply]
  rcases hg.arrowParams t with
    ⟨ps, c', t', hs, h, h'⟩ | ⟨h, h'⟩ | ⟨ps, c', t', hs, hg', hk, h, h'⟩
  · rw [h, h']
    exact (hg.arrowTail t'.outer).congr (by simp [hs]) fun _ => Iff.rfl
  · rw [h, h']
    exact hg.parenthesized t
  · rw [h, h']
    refine .of_open hs (hg.arrowTail t'.outer) (hg.parenthesized (h := fun _ => False) t)
      fun hr => ?_
    cases (hg.parenthesized_group t.ended hr).unique hg'
    rw [Cursor.Halted, hk]
    rfl

/-! ## What starts with a bracket or a keyword -/

theorem calleeForm {callee : Expr} (t : c.Room o n) (hend : c.atEnd = false) :
    Narrowed o n (fun _ => False) (Visit.expr callee).OpenIn ExprForm.OpenIn
      (g.calleeForm callee true c) (g.calleeForm callee false c) := by
  refine .skip t.eat .eat fun h t => ?_
  rcases eat_ok h with ⟨rfl, -⟩ | ⟨rfl, -, rfl⟩
  · exact .skip t.outer.propertyName .propertyName fun _ t => .pure t (by simp)
  refine .skip t.eat .eat fun h t => ?_
  rcases eat_ok h with ⟨rfl, -⟩ | ⟨rfl, -, rfl⟩
  · exact .skip ((hg.same o).indexTail (t.moved [.square])).alone .indexTail fun _ t =>
      .pure t (by simp)
  · exact (hg.template t.outer hend).also.andThen fun t => .pure t (by simp)

omit hg in
/-- A callee goes on at no place where reading halts. -/
theorem calleeGoesOn_of_held (hc : c.Held) : calleeGoesOn c = false := by
  rcases hc with hc | ⟨-, c', hc, -⟩
  · simp only [calleeGoesOn, Cursor.seesMark, Bool.or_eq_false_iff]
    exact ⟨⟨⟨hc.sees rfl, hc.sees rfl⟩, hc.sees rfl⟩, hc.sees rfl⟩
  · have hk := Cursor.kind_of_sees hc.seesMark
    simp [calleeGoesOn, Cursor.seesMark, Cursor.sees, hk]

theorem newCallee (t : c.Room o n) : Narrowed o n Cursor.Held False
    (fun e => (Visit.expr e).OpenIn) (g.newCallee true c) (g.newCallee false c) := by
  refine .here ((hg.primary t).bind (fun t => ?_) fun {e c} hc => ?_)
  · refine .iterate (s := fun e => (Visit.expr e).OpenIn) (fun _ => calleeGoesOn) id
      (fun _ h h' => by simp_all) (fun t hc => ?_)
      (fun hh hc => by simp_all [calleeGoesOn_of_held]) t
    refine (hg.calleeForm t ?_).andThen fun t =>
      .skip t.spanFrom .of_const fun _ t => .pure t (by simp)
    simp only [Grammar.calleeGoesOn, Bool.or_eq_true] at hc
    rcases hc with ((hs | hs) | hs) | hs <;> exact Cursor.atEnd_of_sees hs
  · intro x c' hr
    cases (iterate_stop (calleeGoesOn_of_held hc)).symm.trans hr
    exact hc

/-- After a callee that halts only its arguments can be read. -/
theorem newArguments (hc : c.Held) : Ends Cursor.Halted g.newArguments c := by
  rcases hc with hc | ⟨hend, c', hc, hk⟩
  · exact .get (.otherwise (hc.sees rfl) (.pure hc))
  · intro args d hr
    have hr : g.arguments false c = .ok args d := by
      simpa [Grammar.newArguments, hc.seesMark] using hr
    exact arguments_halted hg.accounts hend hc hk hr

theorem newExpression (t : c.Room o (n + 1)) : Narrowed o n Cursor.Halted False ExprForm.OpenIn
    (g.newExpression true c) (g.newExpression false c) := by
  refine .here (.skip t.consumeKeyword .consumeKeyword fun _ t => .skip t.eat .eat fun _ t => ?_)
  refine .ite (fun _ => ?_) fun _ => (hg.newCallee t).bind (fun t => ?_) fun hc => ?_
  · exact .skip t.outer.propertyName .propertyName fun _ t => .pure t (by simp)
  · have hread := ((hg.same o).arguments (b := true) (t.moved [])).alone
    refine .skip (.get (.ite (fun _ => hread) fun _ => .pure t))
      (.get fun _ => .ite .arguments .of_const) fun _ t => .pure t (by simp)
  · exact (hg.newArguments hc).bind fun hc => .pure hc

theorem compound (t : c.Room o (n + 1)) : Narrowed o n Cursor.Halted False ExprForm.OpenIn
    (g.compound true c) (g.compound false c) := by
  refine .get ?_
  generalize hk : c.current.kind = kind
  split
  iterate 2
    exact (hg.template t (by simp [Cursor.atEnd, hk])).andThen fun t => .pure t (by simp)
  · exact hg.arrayLiteral t
  · exact hg.objectLiteral t
  · exact (Narrowed.of_same ((hg.same o).function _ (t.fresh [])).alone .function).map (by simp)
  · exact (hg.classDef t).map (by simp)
  · exact hg.newExpression t
  · refine .here (.skip t.consumeKeyword .consumeKeyword fun _ t => .get (.ite (fun _ => ?_) ?_))
    · exact .error (by simp) (by simp)
    · exact fun _ => .skip t.outer.consumeMark .consumeMark fun _ t =>
        .skip t.outer.propertyName .propertyName fun _ t => .pure t (by simp)
  · exact .unexpected

omit hg in
theorem not_openIn_literal {t : Token} {f : ExprForm} (h : literal? t = some f) : ¬ f.OpenIn := by
  rw [literal?] at h
  split at h <;> cases h <;> simp

theorem primaryExpression (t : c.Room o (n + 1)) : Narrowed o n Cursor.Held False
    (fun e => (Visit.expr e).OpenIn) (g.primaryExpression true c)
    (g.primaryExpression false c) := by
  refine .get ?_
  generalize hk : c.current.kind = kind, hl : literal? c.current = form?
  split
  · exact hg.identifierExpression t (by simp [Cursor.atEnd, hk])
  · exact (hg.parenExpression t).mono .inl
  · have hend : c.atEnd = false := by simpa [Cursor.atEnd] using (Accounts.literal hl).1.1
    exact .skip (t.advance hend) .of_const fun _ t => .skip t.spanFrom .of_const fun _ t =>
      .pure t (by rw [Visit.openIn_expr, iff_false]; exact not_openIn_literal hl)
  · exact ((hg.compound t).mono .inl).withSpan (by simp)

theorem yieldExpression (t : c.Room o (n + 1)) : Narrowed o n Cursor.Halted False ExprForm.OpenIn
    (g.yieldExpression true c) (g.yieldExpression false c) := by
  refine .skip t.consumeKeyword .consumeKeyword fun _ t => .skip t.eat .eat fun _ t => ?_
  refine .get (.ite (fun _ => .pure t (by simp)) fun _ => ?_)
  exact (hg.assignment t).bind (fun t => .pure t (by simp)) fun hc => .pure hc

theorem operand (t : c.Room o (n + 1)) : Narrowed o n Cursor.Held False
    (fun e => (Visit.expr e).OpenIn) (g.operand true c) (g.operand false c) := by
  have hexpr {c : Cursor} (t : c.Room o n) : Narrowed o n Cursor.Held False
      (fun e => (Visit.expr e).OpenIn) (g.expression 15 true c) (g.expression 15 false c) :=
    (hg.expression (by decide) t).mono .inl
  refine .get ?_
  generalize hk : c.current.kind = kind
  generalize ho : UnaryOp.ofToken? kind = op?
  split
  · have hend : c.atEnd = false := by
      simpa [Cursor.atEnd, hk] using (Accounts.neutral_of_unary ho).1
    exact .skip (t.advance hend) .of_const fun _ t => (hexpr t).withSpan (by simp)
  · exact .skip (t.advance (by simp [Cursor.atEnd, hk])) .of_const fun _ t =>
      (hexpr t).withSpan (by simp)
  · exact ((hg.yieldExpression t).mono .inl).withSpan (by simp)
  · exact hg.primaryExpression t

/-- An expression with what goes on with it, which is no `in`. -/
theorem extend {left : Expr} {k : Continuation} (t : c.Room o n)
    (hk : Continuation.ofToken? c.current.kind = some k) (hp : c.current.precedence false ≠ 0) :
    Narrowed o n Cursor.Halted (Visit.expr left).OpenIn (fun e => (Visit.expr e).OpenIn)
      (g.extend left true c) (g.extend left false c) := by
  have hkind : c.current.kind ≠ .keyword .inKw := fun h => hp (Token.precedence_isIn h)
  have hin : k ≠ .binary .isIn := by
    rintro rfl
    exact hkind (Continuation.kind_of_isIn hk)
  rw [extend_apply, extend_apply, hk, Token.precedence_false hkind]
  exact (hg.continueWith t hk hin).withSpan (by simp)

/-- After an operand before an arrow only its arguments are read. -/
theorem extend_halted {e x : Expr} {d : Cursor} (hend : c.Ended) (hc : c.Group d)
    (hk : d.current.kind = .punct .fatArrow) (hr : g.extend e false c = .ok x c') :
    c'.Halted := by
  have hcall : Continuation.ofToken? c.current.kind = some .call := by
    rw [Cursor.kind_of_sees hc.seesMark]
    rfl
  rw [extend_apply, hcall] at hr
  simp only [Option.elim_some, Grammar.continueWith, bind_ok, spanFrom_ok, pure_ok] at hr
  obtain ⟨_, _, ⟨_, _, ha, -, rfl⟩, _, _, ⟨-, rfl⟩, -, rfl⟩ := hr
  exact arguments_halted hg.accounts hend hc hk ha

/-- After an operand that halts either nothing is read or arguments before an arrow. -/
theorem readExpression {precedence : Nat} (hp : precedence ≤ 17) (t : c.Room o (n + 1)) :
    Narrowed o n Cursor.Halted False (fun e => (Visit.expr e).OpenIn)
      (g.readExpression precedence true c) (g.readExpression precedence false c) := by
  have stays {c : Cursor} (hc : c.Halted) : goesOn false precedence c = false := by
    rw [Grammar.goesOn, hc.precedence]
    rfl
  have stops {e : Expr} {c : Cursor} (hc : c.Halted) :
      iterate (goesOn false precedence) g.extend e false c = .ok e c := iterate_stop (stays hc)
  refine (hg.operand t).bind (fun t => ?_) fun {e c} hc => ?_
  · refine .iterate (s := fun e => (Visit.expr e).OpenIn) (fun b => goesOn b precedence)
      (fun hc => ?_) (fun {e c} t hc hc' => ?_) (fun t hc => ?_) (fun hc hc' => ?_) t
    · obtain ⟨hpos, hle⟩ := goesOn_iff.mp hc
      have hkind : _ ≠ _ := fun h => hpos (Token.precedence_isIn h)
      rw [Token.precedence_false hkind] at hpos hle
      exact goesOn_iff.mpr ⟨hpos, hle⟩
    · have hkind : c.current.kind = .keyword .inKw := by
        by_contra hkind
        rw [Grammar.goesOn, Token.precedence_false hkind] at hc'
        cases hc'.symm.trans hc
      refine ⟨by rw [Cursor.Halted, hkind]; rfl, fun y c' hr => ⟨?_, ?_⟩⟩
      · rw [extend_apply, hkind] at hr
        simp only [Continuation.ofToken?, AssignmentOp.ofToken?, BinaryOp.ofToken?,
          Option.elim_some, Grammar.continueWith, bind_ok, pure_ok] at hr
        obtain ⟨_, _, ⟨_, _, -, _, _, -, rfl, rfl⟩, _, _, -, rfl, rfl⟩ := hr
        simp
      · have h : Same o n (g.extend e true c) _ := ((hg.same o).extend rfl (t.moved [])).alone
        rw [hr] at h
        exact h.room
    · obtain ⟨k, hk⟩ := ofToken?_of_goesOn hc
      exact hg.extend t hk (goesOn_iff.mp hc).1
    · rw [stays hc] at hc'
      cases hc'
  · rcases hc with hc | ⟨hend, d, hc, hk⟩
    · intro x c' hr
      cases (stops hc).symm.trans hr
      exact hc
    · have hparen := Cursor.kind_of_sees hc.seesMark
      have hlevel : c.current.precedence false = 17 := by rw [Token.precedence, hparen]
      intro x c' hr
      change iterate (goesOn false precedence) g.extend e false c = .ok x c' at hr
      rw [Parser.iterate.eq_def, if_pos (goesOn_iff.mpr (by rw [hlevel]; exact ⟨by decide, hp⟩))]
        at hr
      cases hx : g.extend e false c with
      | error e c₁ =>
        rw [hx] at hr
        cases hr
      | ok y c₁ =>
        rw [hx] at hr
        dsimp only at hr
        have hhalted := hg.extend_halted hend hc hk hx
        rw [stops hhalted, ite_self] at hr
        cases hr
        exact hhalted

theorem fullExpression (t : c.Room o (n + 1)) : Narrowed o n Cursor.Halted False
    (fun e => (Visit.expr e).OpenIn) (g.fullExpression true c) (g.fullExpression false c) :=
  commaSequence (hg.readExpression (by decide) t) fun t => hg.readExpression (by decide) t.outer

end Narrows
end Grammar
end ModuleBundler
