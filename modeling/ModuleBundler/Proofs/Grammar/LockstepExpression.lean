import ModuleBundler.Proofs.Grammar.LockstepPattern

/-! Corresponding places are read alike: expressions. -/
namespace ModuleBundler

/-- Nothing that may follow a script goes on with an expression. -/
theorem Continuation.ofToken?_of_follows {kind : TokenKind} (h : kind.follows = true) :
    ofToken? kind = none := by
  unfold TokenKind.follows at h
  split at h <;> first | rfl | cases h

namespace Lockstep
open ModuleBundler.Parser ModuleBundler.Grammar
variable {L : Lockstep} {lost : Prop} {n : Nat} {m a : Bool} {s : List Bracket} {c d : Cursor}

namespace At

theorem ofToken? (t : L.At n m true s c d) :
    Continuation.ofToken? d.current.kind = Continuation.ofToken? c.current.kind := by
  by_cases h : c.Stopped L.loses s d
  · have hc : c.current.kind = .eof := by simpa [Cursor.atEnd] using h.ended
    rw [Continuation.ofToken?_of_follows h.follows, hc]
    rfl
  · rw [(t.same h).kind]

theorem precedence (t : L.At n true true s c d) (allowIn : Bool) :
    d.current.precedence allowIn = c.current.precedence allowIn := by
  by_cases h : c.Stopped L.loses s d
  · have hc : c.current.kind = .eof := by simpa [Cursor.atEnd] using h.ended
    rw [Token.precedence_eq_zero (Continuation.ofToken?_of_follows h.follows), Token.precedence,
      hc]
  · rw [Token.precedence, Token.precedence, (t.same h).kind, (t.same h).newline rfl]

theorem calleeGoesOn (t : L.At n m true s c d) :
    Grammar.calleeGoesOn d = Grammar.calleeGoesOn c := by
  simp only [Grammar.calleeGoesOn, Cursor.seesMark]
  rw [t.sees rfl, t.sees rfl, t.sees_apart rfl, t.sees rfl]

theorem goesOn (t : L.At n true true s c d) (allowIn : Bool) (precedence : Nat) :
    Grammar.goesOn allowIn precedence d = Grammar.goesOn allowIn precedence c := by
  rw [Grammar.goesOn, Grammar.goesOn, t.precedence]

/-- An expression that may be left out ends with the script. -/
theorem endsHere (t : L.At n true true s c d) : Grammar.endsHere d = Grammar.endsHere c := by
  by_cases h : c.Stopped L.loses s d
  · rw [Grammar.endsHere, Grammar.endsHere, h.newline, h.ended]
    simp
  · have hs := t.same h
    rw [Grammar.endsHere, Grammar.endsHere, hs.newline rfl, atEnd_same hs, hs.kind]

end At

namespace Parts
variable {g g' : Grammar} (hg : L.Parts n g g') {b : Bool}
include hg

/-! ## Arguments, templates and what goes on with an expression -/

theorem spreadOrAssignment (t : L.At n true a s c d) :
    L.Ends (s = []) n true true s (g.spreadOrAssignment b c) (g'.spreadOrAssignment b d) := by
  by_cases h : c.Stopped L.loses s d
  · exact .of_stopped h (L.ended t) fun hr =>
      ⟨_, _, ((hg.accounts h.loses).spreadOrAssignment hr).takes⟩
  have hs := t.span h
  refine .here (t.eat rfl rfl (fun t => ?_) fun _ => hg.assignment t)
  exact (hg.assignment t).bind fun _ he t => .pure (.spread hs he) t

theorem arguments (t : L.At n m a s c d) :
    L.Ends lost n true true s (g.arguments b c) (g'.arguments b d) := by
  refine t.consumeParen.bind fun _ _ t => ?_
  refine Ends.bind (t.manyUntil fun t => At.separated (hg.spreadOrAssignment t).inside.weaken)
    fun _ hes t => ?_
  exact (t.consumeMark (Bracket.step_rParen s) rfl).bind fun _ _ t => .pure hes t

theorem templatePart {bracket : Bracket} {s' : List Bracket} (t : L.At n m a s c d)
    (hend : c.atEnd = false) (hk : c.current.kind.light = true)
    (hs : Bracket.step s c.current.kind = some (bracket :: s')) :
    L.Ends lost n true true (bracket :: s') (g.templatePart b c) (g'.templatePart b d) := by
  have hl := TokenKind.steady_of_light hk
  simp only [TokenKind.steady, Bool.and_eq_true, Bool.not_eq_true'] at hl
  refine t.advance hend hs (TokenKind.ne_lParen_of_light hk) fun t' => ?_
  rw [t.value hend hl.2]
  exact (hg.enclosed t').inside.bind fun _ he t => .pure (.pair .plain he) t

theorem template (t : L.At n m a s c d) (hs : c.Matches L.likeness m d)
    (hk : c.current.kind = .noSubstitutionTemplate ∨ c.current.kind = .templateHead) :
    L.Ends lost n true true s (g.template b c) (g'.template b d) := by
  have hend : c.atEnd = false := by rcases hk with hk | hk <;> simp [Cursor.atEnd, hk]
  refine .get (.ite (At.sees_same hs _) (fun hs' => ?_) fun hn => ?_)
  · have hk := Cursor.kind_of_sees hs'
    refine t.advance hend (by rw [hk]; rfl) (by rw [hk]; rintro ⟨⟩) fun t => ?_
    rw [hs.value]
    exact .pure (.pair .plain .nil) t
  have hk : c.current.kind = .templateHead := by
    refine hk.resolve_left fun hk => ?_
    simp [Cursor.sees, hend, hk] at hn
  have hstep : Bracket.step s c.current.kind = some (.template :: s) := by rw [hk]; rfl
  refine (hg.templatePart t hend (by rw [hk]; rfl) hstep).bind fun _ hf t => ?_
  refine (t.many (fun t => t.sees rfl) fun t hm => ?_).bind fun _ hps t => ?_
  · refine hg.templatePart t (Cursor.atEnd_of_sees hm) (by rw [Cursor.kind_of_sees hm]; rfl) ?_
    rw [Cursor.kind_of_sees hm]
    exact Bracket.step_templateMiddle s
  refine .get (.ite (t.sees rfl) (fun hs => ?_) fun _ => .fail t)
  have hend := Cursor.atEnd_of_sees hs
  refine t.advance hend (by rw [Cursor.kind_of_sees hs]; exact Bracket.step_templateTail s)
    (by rw [Cursor.kind_of_sees hs]; rintro ⟨⟩) fun t' => .pure ?_ t'
  rw [t.value hend (by rw [Cursor.kind_of_sees hs]; rfl)]
  exact (hf.cons hps).templateParts _

omit hg in
/-- A template with a head has substitutions. -/
theorem template_cons {r : List String × List Expr} {c' : Cursor}
    (hk : c.current.kind = .templateHead) (h : g.template b c = .ok r c') :
    ∃ e es, r.2 = e :: es := by
  have hs : c.sees .noSubstitutionTemplate = false := by simp [Cursor.sees, hk]
  simp only [Grammar.template, bind_ok, get_ok, if_apply] at h
  obtain ⟨_, _, ⟨rfl, rfl⟩, h⟩ := h
  rw [hs, if_neg Bool.false_ne_true] at h
  simp only [bind_ok, get_ok, if_apply] at h
  obtain ⟨first, c₁, -, parts, c₂, -, _, _, ⟨rfl, rfl⟩, h⟩ := h
  split at h
  · simp only [bind_ok, pure_ok] at h
    obtain ⟨_, _, -, rfl, -⟩ := h
    exact ⟨first.2, parts.map Prod.snd, rfl⟩
  · cases fail_ok h

theorem indexTail (t : L.At n true true (.square :: s) c d) :
    L.Ends lost n true true s (g.indexTail b c) (g'.indexTail b d) := by
  refine (hg.enclosed t).inside.bind fun _ he t => ?_
  exact (t.consumeMark (Bracket.step_rBracket s) rfl).bind fun _ _ t => .pure he t

theorem optionalTail {left left' : Expr} (hl : L.likeness.Like left left')
    (t : L.At n true true s c d) :
    L.Ends (s = []) n true true s (g.optionalTail left b c) (g'.optionalTail left' b d) := by
  refine .get (.ite (t.sees rfl) (fun _ => ?_) fun _ => ?_)
  · exact (hg.arguments t).bind fun _ hes t => .pure (hl.call _ hes) t
  refine t.eat rfl rfl (fun t => ?_) fun _ => ?_
  · exact (hg.indexTail t).bind fun _ he t => .pure (hl.index _ he) t
  · exact t.propertyName.bind fun _ hi t => .pure (hl.member _ hi) t

theorem continueWith {left left' : Expr} {precedence : Nat} {k : Continuation}
    (hl : L.likeness.Like left left') (hk : Continuation.ofToken? c.current.kind = some k)
    (t : L.At n true true s c d) :
    L.Ends (s = []) n true true s (g.continueWith left precedence k b c)
      (g'.continueWith left' precedence k b d) := by
  obtain ⟨hend, hn⟩ := Continuation.neutral_of_ofToken? hk
  have hc : c.atEnd = false := by simpa [Cursor.atEnd] using hend
  have hp (hp : k ≠ .call) : c.current.kind ≠ .punct .lParen := by
    intro h
    rw [h] at hk
    exact hp (Option.some.inj hk).symm
  have neutral (hp : k ≠ .index ∧ k ≠ .call ∧ k ≠ .template) :
      Bracket.step s c.current.kind = some s := by
    simp only [hp, false_and, false_or, ne_eq, not_false_eq_true, true_and] at hn
    exact hn s
  cases k with
  | assignment op =>
    refine t.advance hc (neutral (by simp)) (hp (by simp)) fun t => ?_
    exact (hg.assignment t).bind fun _ he t =>
      .pure (.form₂ (.assignment op) (fun _ _ _ _ => rfl) hl he) t
  | binary op =>
    refine t.advance hc (neutral (by simp)) (hp (by simp)) fun t => ?_
    exact (hg.expression t).bind fun _ he t =>
      .pure (.form₂ (.binary op) (fun _ _ _ _ => rfl) hl he) t
  | conditional =>
    refine t.advance hc (neutral (by simp)) (hp (by simp)) fun t => ?_
    refine Ends.bind (hg.assignment t) fun _ hy t => (t.consumeMark rfl rfl).bind fun _ _ t => ?_
    exact (hg.assignment t).bind fun _ hn t =>
      .pure (.form₃ .conditional (fun _ _ _ _ _ => rfl) hl hy hn) t
  | increment op =>
    exact t.advance hc (neutral (by simp)) (hp (by simp)) fun t =>
      .pure (hl.form (.unary op) fun _ _ _ => rfl) t
  | member =>
    refine t.advance hc (neutral (by simp)) (hp (by simp)) fun t => ?_
    exact t.propertyName.bind fun _ hi t => .pure (hl.member _ hi) t
  | optional =>
    exact t.advance hc (neutral (by simp)) (hp (by simp)) fun t => hg.optionalTail hl t
  | index =>
    have hn : c.current.kind = .punct .lBracket := by simpa using hn
    have hs : Bracket.step s c.current.kind = some (.square :: s) := by rw [hn]; rfl
    refine t.advance hc hs (hp (by simp)) fun t => ?_
    exact (hg.indexTail t).bind fun _ he t => .pure (hl.index _ he) t
  | call => exact (hg.arguments t).bind fun _ hes t => .pure (hl.call _ hes) t
  | template =>
    have hn : c.current.kind = .noSubstitutionTemplate ∨ c.current.kind = .templateHead := by
      simpa using hn
    exact (hg.template t (t.same (At.not_stopped hc)) hn).bind fun _ hr t =>
      .pure (hl.taggedTemplate hr) t

theorem extend {left left' : Expr} (hl : L.likeness.Like left left')
    (t : L.At n true true s c d) :
    L.Ends (s = []) n true true s (g.extend left b c) (g'.extend left' b d) := by
  rw [extend_apply, extend_apply, t.ofToken?, t.precedence b]
  cases hk : Continuation.ofToken? c.current.kind with
  | none => exact .pure hl t
  | some k => exact (hg.continueWith hl hk t).bind fun _ hf t => t.spanned hl.exprSpan hf

/-! ## Literals, arrow functions and what starts with a name -/

theorem arrayLiteral (t : L.At n m a s c d) :
    L.Ends lost n true true s (g.arrayLiteral b c) (g'.arrayLiteral b d) := by
  refine (t.consumeMark rfl rfl).bind fun _ _ t => ?_
  refine (t.manyUntil fun t => ?_).bind fun _ hes t => ?_
  · refine Ends.bindPlain (t.eat? rfl fun _ => rfl) fun _ t => ?_
    refine .ite rfl (fun _ => .pure .none t) fun _ => ?_
    refine (hg.spreadOrAssignment t).inside.bind fun _ he t => ?_
    exact t.separator.bind fun _ _ t => .pure he.some t
  · exact (t.consumeMark (Bracket.step_rBracket s) rfl).bind fun _ _ t => .pure hes.array t

theorem propertyOrMethod (t : L.At n m true (.curly :: s) c d) :
    L.Ends lost n true true (.curly :: s) (g.propertyOrMethod b c) (g'.propertyOrMethod b d) := by
  refine t.modifiers.bindPlain fun _ t => ?_
  refine (hg.propertyKey t).inside.bind fun {key key' _ _} _ hk t => ?_
  refine .get (.ite (t.sees rfl) (fun _ => ?_) fun _ => .ite rfl (fun _ => .fail t) fun _ => ?_)
  · exact (hg.functionTail .none _ _ t).inside.bind fun _ hfn t => .pure (hk.objectMethod _ hfn) t
  refine Ends.bindPlain (t.eat? rfl fun _ => rfl) fun _ t => .ite rfl (fun _ => ?_) fun _ => ?_
  · exact (hg.assignment t).inside.bind fun _ he t => .pure (hk.propertyValue _ he) t
  · rcases hk.cases_name with ⟨i, i', rfl, rfl, hi⟩ | ⟨hn, hn'⟩
    · exact .pure (hk.propertyValue _ hi.identExpr) t
    · cases key with
      | name i => exact (hn i rfl).elim
      | _ =>
        cases key' with
        | name i' => exact (hn' i' rfl).elim
        | _ => exact .fail t

theorem objectMember (t : L.At n m true (.curly :: s) c d) :
    L.Ends lost n true true (.curly :: s) (g.objectMember b c) (g'.objectMember b d) :=
  t.eat rfl rfl (fun t => (hg.assignment t).inside.bind fun _ he t =>
    .pure (he.map ObjectMember.spread fun _ _ => rfl) t) fun _ => hg.propertyOrMethod t

theorem objectLiteral (t : L.At n m a s c d) :
    L.Ends lost n true true s (g.objectLiteral b c) (g'.objectLiteral b d) := by
  refine (t.consumeMark rfl rfl).bind fun _ _ t => ?_
  exact (t.commaList (Bracket.step_rBrace s) rfl hg.objectMember).bind fun _ hms t =>
    .pure hms.object t

theorem arrowBody {ps ps' : List Param} (hps : L.likeness.Like ps ps') (isAsync : Bool)
    (t : L.At n true true s c d) :
    L.Ends (s = []) n true true s (g.arrowBody ps isAsync b c) (g'.arrowBody ps' isAsync b d) := by
  refine .get (.ite (t.sees rfl) (fun _ => ?_) fun _ => ?_)
  · exact (hg.block t).map fun hb => hps.arrowBlock _ hb
  · exact (hg.assignment t).map fun he => hps.arrow _ he

theorem arrowTail {start start' : Span} {ps ps' : List Param}
    (hs : L.likeness.Like start start') (hps : L.likeness.Like ps ps') (isAsync : Bool)
    (t : L.At n m a s c d) :
    L.Ends (s = []) n true true s (g.arrowTail start ps isAsync b c)
      (g'.arrowTail start' ps' isAsync b d) := by
  refine (t.consumeMark rfl rfl).bind fun _ _ t => (hg.arrowBody hps _ t).bind fun _ hf t => ?_
  exact t.spanned hs hf

/-- Both scripts have parameters of an arrow function here, or none has. -/
theorem arrowParams (t : L.At n m a s c d) :
    L.Ends lost n m a s (g.arrowParams b c) (g'.arrowParams b d) := by
  have h : L.Ends False n true true s (g.params b c) (g'.params b d) := hg.params t
  unfold Grammar.arrowParams
  generalize g.params b c = r at h
  generalize g'.params b d = r' at h
  cases h with
  | @ok ps ps' c₁ d₁ hps t₁ =>
    have hw : (d₁.seesMark .fatArrow && !d₁.current.newlineBefore)
        = (c₁.seesMark .fatArrow && !c₁.current.newlineBefore) := by
      have hs : d₁.seesMark .fatArrow = c₁.seesMark .fatArrow := t₁.sees rfl
      rw [hs]
      cases hs : c₁.seesMark .fatArrow with
      | false => rfl
      | true => rw [t₁.newlineBefore (Cursor.atEnd_of_sees hs)]
    dsimp only
    rw [hw]
    split
    · exact .ok hps.some (L.weaken t₁)
    · exact .ok .none t
  | error => exact .ok .none t
  | lost _ h => exact h.elim

omit hg in
theorem bareParam (t : L.At n m a s c d) :
    L.Ends lost n true true s (Grammar.bareParam b c) (Grammar.bareParam b d) :=
  t.ident.bind fun _ hi t =>
    .pure (hi.map (fun i => (⟨⟨i.span, .ident i⟩, false⟩ : Param)) fun _ _ => rfl) t

omit hg in
theorem identExpr (t : L.At n m a s c d) :
    L.Ends lost n true true s (Grammar.identExpr b c) (Grammar.identExpr b d) :=
  t.ident.bind fun _ hi t => .pure hi.identExpr t

theorem bareArrow {start start' : Span} (hs : L.likeness.Like start start') (isAsync : Bool)
    (t : L.At n m a s c d) :
    L.Ends (s = []) n true true s
      ((do g.arrowTail start [← Grammar.bareParam] isAsync : Parser Expr) b c)
      ((do g'.arrowTail start' [← Grammar.bareParam] isAsync : Parser Expr) b d) :=
  (bareParam t).bind fun _ hp t => hg.arrowTail hs (hp.cons .nil) _ t

theorem asyncCallOrArrow {start start' : Span} (hs : L.likeness.Like start start')
    (t : L.At n m a s c d) (hk : c.current.kind = .identifier) :
    L.Ends (s = []) n true true s (g.asyncCallOrArrow start b c)
      (g'.asyncCallOrArrow start' b d) := by
  have t' : L.At n true true s c.next d.next := L.next_apart t (by simp [Cursor.atEnd, hk])
    (by rw [hk]; rfl) (by simp [hk])
  have h : L.Ends False n true true s (g.arrowParams b c.next) (g'.arrowParams b d.next) :=
    hg.arrowParams t'
  unfold Grammar.asyncCallOrArrow
  generalize g.arrowParams b c.next = r at h
  generalize g'.arrowParams b d.next = r' at h
  cases h with
  | @ok ps? ps?' c₁ d₁ ho t₁ =>
    obtain ⟨rfl, rfl⟩ | ⟨ps, ps', rfl, rfl, hps⟩ := ho.cases_option
    · exact identExpr t
    · exact hg.arrowTail hs hps _ t₁
  | error => exact identExpr t
  | lost _ h => exact h.elim

omit hg in
/-- A name at the end of a script stands for itself. -/
theorem identifierExpression_last {g : Grammar} {kind : TokenKind}
    (hs : c.secondKind? = some kind) (hk : kind = .eof ∨ c.newlineBeforeSecond = true)
    (ha : kind ≠ .punct .fatArrow) :
    g.identifierExpression b c = Grammar.identExpr b c := by
  have ha : (some kind == some (TokenKind.punct .fatArrow)) = false := by simpa using ha
  simp only [Grammar.identifierExpression, bind_apply,
    show (MonadState.get : Parser Cursor) b c = .ok c c from rfl, if_apply, hs, ha, Bool.false_and,
    Bool.false_eq_true, if_false]
  rcases hk with rfl | hk
  · split <;> rfl
  · simp [hk]

omit hg in
/-- Without a name there is nothing to read. -/
theorem identifierExpression_error {g : Grammar} (h : c.sees .identifier = false) :
    g.identifierExpression b c
      = .error (c.fault (.expectedToken .identifier)) c := by
  have hident : Parser.ident b c = .error (c.fault (.expectedToken .identifier)) c := by
    have hc : Parser.consume .identifier b c
        = .error (c.fault (.expectedToken .identifier)) c := by
      change (if c.sees .identifier then Parser.advance
        else Parser.unexpected (.expectedToken .identifier)) b c = _
      rw [h]
      rfl
    rw [Parser.ident, bind_apply, hc]
  have hword : c.seesWord "async" = false := by
    cases hw : c.seesWord "async" with
    | false => rfl
    | true =>
      have hk := Cursor.kind_of_seesWord hw
      simp [Cursor.sees, Cursor.atEnd, hk] at h
  simp only [Grammar.identifierExpression, Grammar.bareParam, Grammar.identExpr, bind_apply,
    show (MonadState.get : Parser Cursor) b c = .ok c c from rfl, if_apply, hword, hident,
    Bool.false_and, Bool.false_eq_true, if_false, ite_self]

theorem identifierExpression (t : L.At n m a s c d) :
    L.Ends (s = []) n true true s (g.identifierExpression b c)
      (g'.identifierExpression b d) := by
  cases hsees : c.sees .identifier with
  | false =>
    rw [identifierExpression_error hsees, identifierExpression_error ((t.sees rfl).trans hsees)]
    exact .error (L.fault t _)
  | true =>
  have hk : c.current.kind = .identifier := Cursor.kind_of_sees hsees
  have hend : c.atEnd = false := by simp [Cursor.atEnd, hk]
  have hp : c.current.kind ≠ .punct .lParen := by simp [hk]
  have hstart := t.span (At.not_stopped hend)
  rcases L.second t hend hp with ⟨hs, hn⟩ | h
  · refine .get (.ite (by rw [hs, hn]) (fun _ => hg.bareArrow hstart _ t) fun _ => ?_)
    refine .ite (by rw [t.seesWord, hn]) (fun _ => ?_) fun _ => identExpr t
    rw [hs]
    generalize hsecond : c.secondKind? = second
    split
    · refine Ends.bind (hg.function true t) fun _ hfn t => ?_
      exact t.spanned hstart (hfn.form .functionExpr fun _ _ _ => rfl)
    · have hstep : Bracket.step s c.current.kind = some s := by rw [hk]; rfl
      refine .ite ?_ (fun _ => ?_) fun _ => identExpr t
      · have hkn := Cursor.next_kind hend hsecond
        rw [Bool.eq_iff_iff, beq_iff_eq, beq_iff_eq]
        exact (L.next_apart t hend hstep hp).second_iff (by simp [Cursor.atEnd, hkn])
          (by simp [hkn]) rfl (by rintro ⟨⟩)
      · exact t.advance hend hstep hp fun t => hg.bareArrow hstart _ t
    · exact hg.asyncCallOrArrow hstart t hk
    · exact identExpr t
  · obtain ⟨kind, hd, hf⟩ := h.follows
    rw [identifierExpression_last h.ended (.inl rfl) (by rintro ⟨⟩),
      identifierExpression_last hd (.inr h.newline) (by rintro rfl; cases hf)]
    exact identExpr t

theorem parenExpression (t : L.At n m a s c d) (h : ¬ c.Stopped L.loses s d) :
    L.Ends (s = []) n true true s (g.parenExpression b c) (g'.parenExpression b d) := by
  have hs := t.span h
  refine .here (Ends.bind (hg.arrowParams t) fun _ ho t => ?_)
  obtain ⟨rfl, rfl⟩ | ⟨ps, ps', rfl, rfl, hps⟩ := ho.cases_option
  · refine t.consumeParen.bind fun _ _ t => (hg.enclosed t).inside.bind fun _ he t => ?_
    refine (t.consumeMark (Bracket.step_rParen s) rfl).bind fun _ _ t => ?_
    exact t.spanned hs (he.form .paren fun _ _ _ => rfl)
  · exact hg.arrowTail hs hps _ t

/-! ## What starts with a keyword -/

theorem calleeForm {callee callee' : Expr} (hl : L.likeness.Like callee callee')
    (t : L.At n true true s c d) (hc : Grammar.calleeGoesOn c = true) :
    L.Ends (s = []) n true true s (g.calleeForm callee b c) (g'.calleeForm callee' b d) := by
  refine t.eat rfl rfl (fun t => ?_) fun hd => ?_
  · exact t.propertyName.bind fun _ hi t => .pure (hl.member _ hi) t
  refine t.eat rfl rfl (fun t => ?_) fun hb => ?_
  · exact (hg.indexTail t).bind fun _ he t => .pure (hl.index _ he) t
  · rw [Grammar.calleeGoesOn, Cursor.seesMark, Cursor.seesMark, hd, hb, Bool.false_or,
      Bool.false_or, Bool.or_eq_true] at hc
    have hend := hc.elim Cursor.atEnd_of_sees Cursor.atEnd_of_sees
    exact (hg.template t (t.same (At.not_stopped hend))
      (hc.imp Cursor.kind_of_sees Cursor.kind_of_sees)).bind fun _ hr t =>
        .pure (hl.taggedTemplate hr) t

theorem newCallee (t : L.At n true a s c d) :
    L.Ends (s = []) n true true s (g.newCallee b c) (g'.newCallee b d) := by
  by_cases h : c.Stopped L.loses s d
  · exact .of_stopped h (L.ended t) fun hr =>
      ⟨_, _, ((hg.accounts h.loses).newCallee hr).takes⟩
  have hs := t.span h
  refine .here ((hg.primary t).bind fun _ hl t => ?_)
  refine t.iterate (fun t => t.calleeGoesOn) (fun t hc hl => ?_) hl
  exact (hg.calleeForm hl t hc).bind fun _ hf t => t.spanned hs hf

theorem newExpression (t : L.At n m a s c d) (h : ¬ c.Stopped L.loses s d) :
    L.Ends (s = []) n true true s (g.newExpression b c) (g'.newExpression b d) := by
  have hs := t.span h
  refine .here ((t.consumeKeyword rfl).bind fun _ _ t => ?_)
  refine Ends.bindPlain (t.eat? rfl fun _ => rfl) fun _ t => .ite rfl (fun _ => ?_) fun _ => ?_
  · exact t.propertyName.bind fun _ hi t => .pure (hi.metaProperty _ hs) t
  refine (hg.newCallee t).bind fun _ hl t => ?_
  refine Ends.bind (n := n) (m := true) (a := true) (s := s) ?_ fun _ hes t =>
    .pure (hl.newCall hes) t
  exact .get (.ite (t.sees rfl) (fun _ => hg.arguments t) fun _ => .pure .nil t)

omit hg in
theorem importExpression (t : L.At n m a s c d) (h : ¬ c.Stopped L.loses s d) :
    L.Ends (s = []) n true true s (Grammar.importExpression b c)
      (Grammar.importExpression b d) := by
  have hs := t.span h
  have hd : d.seesKeyword .importKw = c.seesKeyword .importKw := t.sees rfl
  refine .here ?_
  cases hc : c.seesKeyword .importKw with
  | false =>
    refine (t.consumeKeyword rfl).bind fun hr => ?_
    obtain ⟨_, _, hr, -⟩ := bind_ok.mp hr
    rw [Cursor.seesKeyword, (consume_ok hr).1] at hc
    cases hc
  | true =>
    have hk : c.current.kind = .keyword .importKw := Cursor.kind_of_sees hc
    have t' : L.At n true true s c.next d.next := L.next_apart t (Cursor.atEnd_of_sees hc)
      (by rw [hk]; rfl) (by simp [hk])
    rw [bind_of_ok (consumeKeyword_of_sees hc),
      bind_of_ok (consumeKeyword_of_sees (hd.trans hc))]
    refine .get (.ite (t'.sees rfl) (fun _ => .error (L.importFault t hk)) fun _ => ?_)
    exact (t'.consumeMark rfl rfl).bind fun _ _ t => t.propertyName.bind fun _ hi t =>
      .pure (hi.metaProperty _ hs) t

theorem compound (t : L.At n m a s c d) (hs : c.Matches L.likeness m d)
    (ht : c.current.kind.isText = true → L.likeness = .exact) (h : ¬ c.Stopped L.loses s d) :
    L.Ends (s = []) n true true s (g.compound b c) (g'.compound b d) := by
  refine .get ?_
  rw [hs.kind]
  generalize hk : c.current.kind = kind
  split
  · have hexact := ht (by rw [hk]; rfl)
    refine (hg.template t hs (.inl hk)).bind fun _ h t => .pure (h.templateForm_exact hexact) t
  · refine (hg.template t hs (.inr hk)).bind fun hr h t => .pure ?_ t
    obtain ⟨e, es, he⟩ := template_cons hk hr
    exact h.templateForm he
  · exact hg.arrayLiteral t
  · exact hg.objectLiteral t
  · exact (hg.function true t).map fun h => h.form .functionExpr fun _ _ _ => rfl
  · exact (hg.classDef true t).map fun h => h.form .classExpr fun _ _ _ => rfl
  · exact hg.newExpression t h
  · exact importExpression t h
  · exact .unexpected t

/-! ## Operands and operators -/

omit hg in
/-- A fixed text is an expression of its own. -/
theorem primaryExpression_text {g : Grammar} (hc : c.next.previous = c.current)
    (hk : c.current.kind.isText = true) :
    g.primaryExpression b c = .ok ⟨c.current.span, c.current.textForm⟩ c.next := by
  have hget : (get : Parser Cursor) b c = .ok c c := rfl
  have hspan : c.current.span.merge c.next.previous.span = c.current.span := by
    rw [hc, Span.merge_self]
  generalize hkind : c.current.kind = kind at hk
  cases kind with
  | stringLiteral =>
    have hl : literal? c.current = some (.string c.current.value) := by rw [literal?, hkind]
    have hr : g.primaryExpression b c = .ok ⟨c.current.span.merge c.next.previous.span,
        .string c.current.value⟩ c.next := by
      simp only [Grammar.primaryExpression, bind_apply, hget, hkind, hl]
      rfl
    rw [hr, hspan, Token.textForm, if_pos hkind]
  | noSubstitutionTemplate =>
    have hs : c.sees .noSubstitutionTemplate = true := by simp [Cursor.sees, Cursor.atEnd, hkind]
    have hl : literal? c.current = none := by rw [literal?, hkind]
    have hform : g.compound b c = .ok (.template [c.next.previous.value] []) c.next := by
      simp only [Grammar.compound, Grammar.template, bind_apply, hget, hkind, if_apply, hs,
        if_true]
      rfl
    have hr : g.primaryExpression b c = .ok ⟨c.current.span.merge c.next.previous.span,
        .template [c.next.previous.value] []⟩ c.next := by
      simp only [Grammar.primaryExpression, bind_apply, hget, hkind, hl, hform]
      rfl
    rw [hr, hspan, hc, Token.textForm, hkind, if_neg (by rintro ⟨⟩)]
  | _ => cases hk

theorem primaryExpression (t : L.At n m a s c d) :
    L.Ends (s = []) n true true s (g.primaryExpression b c) (g'.primaryExpression b d) := by
  by_cases h : c.Stopped L.loses s d
  · exact .of_stopped h (L.ended t) fun hr =>
      ⟨_, _, ((hg.accounts h.loses).primaryExpression hr).takes⟩
  cases ht : c.current.kind.isText with
  | true =>
    obtain ⟨hd, hl⟩ := L.text t ht
    have hend : c.atEnd = false := by
      cases hk : c.current.kind <;> simp_all [Cursor.atEnd, TokenKind.isText]
    have hstep : Bracket.step s c.current.kind = some s := by
      cases hk : c.current.kind <;> simp_all [TokenKind.isText, Bracket.step]
    have hp : c.current.kind ≠ .punct .lParen := by
      intro hk
      rw [hk] at ht
      cases ht
    rw [primaryExpression_text (Cursor.previous_next (L.ended t) hend) ht,
      primaryExpression_text (L.previous_next t hend) hd]
    exact .ok hl (L.next_apart t hend hstep hp)
  | false =>
    have hs : c.Matches L.likeness m d := by
      rcases L.view t with hs | ⟨-, hs⟩ | hs
      · exact hs
      · rw [hs.text] at ht
        cases ht
      · contradiction
    have hlit : literal? d.current = literal? c.current := by
      rw [literal?, literal?, hs.kind, hs.value]
    refine .get ?_
    rw [hlit, hs.kind]
    generalize hk : c.current.kind = kind, hl : literal? c.current = form?
    split
    · exact hg.identifierExpression t
    · exact hg.parenExpression t h
    · have hn := Accounts.literal hl
      refine t.advance (by simpa [Cursor.atEnd] using hn.1.1) (hn.1.2 s) ?_ fun t => ?_
      · intro hp
        rw [literal?, hp] at hl
        cases hl
      · exact t.spanned hs.span (.literal hl ht)
    · refine (hg.compound t hs (fun h => ?_) h).bind fun _ hf t => t.spanned hs.span hf
      rw [ht] at h
      cases h

theorem yieldExpression (t : L.At n m a s c d) :
    L.Ends (s = []) n true true s (g.yieldExpression b c) (g'.yieldExpression b d) := by
  refine (t.consumeKeyword rfl).bind fun _ _ t => ?_
  refine Ends.bindPlain (t.eat? rfl fun _ => rfl) fun _ t => ?_
  refine .get (.ite (by rw [t.endsHere]) (fun _ => .pure (.yieldExpr _ .none) t) fun _ => ?_)
  exact (hg.assignment t).bind fun _ he t => .pure (.yieldExpr _ he.some) t

theorem operand (t : L.At n m a s c d) :
    L.Ends (s = []) n true true s (g.operand b c) (g'.operand b d) := by
  rcases L.view t with hs | ⟨-, hs⟩ | h
  · refine .get ?_
    rw [hs.kind]
    generalize hk : c.current.kind = kind
    generalize ho : UnaryOp.ofToken? kind = op?
    split
    · have hn := Accounts.neutral_of_unary ho
      refine t.advance (by simpa [Cursor.atEnd, hk] using hn.1) (hk ▸ hn.2 s) ?_ fun t => ?_
      · intro hp
        rw [← hk, hp] at ho
        cases ho
      · exact (hg.expression t).bind fun _ he t =>
          t.spanned hs.span (he.form (.unary _) fun _ _ _ => rfl)
    · refine t.advance (by simp [Cursor.atEnd, hk]) (by rw [hk]; rfl) (by simp [hk]) fun t => ?_
      exact (hg.expression t).bind fun _ he t =>
        t.spanned hs.span (he.form .awaitExpr fun _ _ _ => rfl)
    · exact (hg.yieldExpression t).bind fun _ hf t => t.spanned hs.span hf
    · exact hg.primaryExpression t
  · have ht := hs.text
    refine .get ?_
    rw [hs.answer]
    generalize c.current.kind = kind at ht
    cases kind <;> first | exact hg.primaryExpression t | cases ht
  · exact .of_stopped h (L.ended t) fun hr =>
      ⟨_, _, ((hg.accounts h.loses).operand hr).takes⟩

theorem readExpression {precedence : Nat} (t : L.At n m a s c d) :
    L.Ends (s = []) n true true s (g.readExpression precedence b c)
      (g'.readExpression precedence b d) := by
  refine (hg.operand t).bind fun _ hl t => ?_
  exact t.iterate (fun t => t.goesOn _ _) (fun t _ hl => hg.extend hl t) hl

theorem fullExpression (t : L.At n m a s c d) :
    L.Ends (s = []) n true true s (g.fullExpression b c) (g'.fullExpression b d) :=
  commaSequence (hg.readExpression t) hg.readExpression

end Parts
end Lockstep
end ModuleBundler
