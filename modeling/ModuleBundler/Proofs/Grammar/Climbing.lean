import ModuleBundler.Proofs.Grammar.Formula
import ModuleBundler.Proofs.Grammar.Progress
import ModuleBundler.Proofs.Grammar.Single

/-! Operators are read into the tree that was printed: how tightly the next operator binds decides
which operand it belongs to. -/
namespace ModuleBundler
open ModuleBundler.Parser

/-! ## What may follow an operand -/

/-- The token goes on with an operand before it less tightly than a bound, and makes no function of
a name before it. -/
structure Token.LooserThan (bound : Nat) (u : Token) : Prop where
  looser : u.precedence true ≠ 0 → u.precedence true < bound
  noFunction : u.kind ∉ [.punct .fatArrow, .identifier, .keyword .functionKw]

namespace Token
variable {u : Token} {bound bound' : Nat}

theorem LooserThan.mono (h : u.LooserThan bound) (hb : bound ≤ bound') : u.LooserThan bound' :=
  ⟨fun hu => Nat.lt_of_lt_of_le (h.looser hu) hb, h.noFunction⟩

theorem looser_mark {p : Punctuator} (hp : Continuation.ofToken? (.punct p) = none)
    (ha : p ≠ .fatArrow) : (mark p).LooserThan bound where
  looser := looser_of_none hp bound
  noFunction := by simp [mark, ha]

theorem ofToken?_operator (op : BinaryOp) :
    Continuation.ofToken? (operator op.text).kind = some (.binary op) := by
  cases op <;> decide

theorem looser_operator {op : BinaryOp} (h : op.level < bound) :
    (operator op.text).LooserThan bound where
  looser _ := by rwa [op.precedence_operator]
  noFunction := by cases op <;> decide

theorem looser_question (h : 2 < bound) : (mark .question).LooserThan bound where
  looser _ := h
  noFunction := by decide

end Token

namespace Formula

/-- The operand at the end of the expression is read up to a token that binds less tightly. -/
def edge : Formula → Nat
  | name _ | paren _ => 16
  | unary .. => 15
  | binary op .. => op.rightLevel
  | conditional .. | assign .. => 1

theorem le_edge {f : Formula} {n : Nat} (h : n ≤ f.level) (hn : n ≠ 2) : n ≤ f.edge := by
  cases f with
  | binary op left right =>
    have hop : op.level ≤ op.rightLevel := by
      rw [BinaryOp.rightLevel]
      split <;> omega
    exact Nat.le_trans h hop
  | conditional test yes no =>
    have h : n ≤ 2 := h
    have hedge : (conditional test yes no).edge = 1 := rfl
    omega
  | name | paren | unary | assign => exact h

/-- An operator is no part of an operand before it that needs no parentheses. -/
theorem lt_edge {f : Formula} {op : BinaryOp} (h : op.leftLevel ≤ f.level) :
    op.level < f.edge := by
  have hop : op.level ≤ op.leftLevel := by
    rw [BinaryOp.leftLevel]
    split <;> omega
  have := op.level_bounds
  cases f with
  | binary op' left right =>
    have h : op.leftLevel ≤ op'.level := h
    change op.level < op'.rightLevel
    by_cases hpow : op' = .pow
    · subst hpow
      revert h
      cases op <;> decide
    · rw [BinaryOp.rightLevel, if_neg hpow]
      omega
  | name | paren | unary | conditional | assign =>
    simp only [edge, level] at h ⊢
    omega

end Formula

/-! ## Tokens without arrows -/

/-- Without an arrow there are no parameters of an arrow function. -/
theorem Grammar.MovesOn.arrowParams_none {g : Grammar} (hg : g.MovesOn) {c : Cursor} (hc : c.Ended)
    (h : ∀ t ∈ c.ahead, t.kind ≠ .punct .fatArrow) (b : Bool) :
    g.arrowParams b c = .ok none c := by
  rw [arrowParams]
  cases hp : g.params b c with
  | error e c' => rfl
  | ok ps c' =>
    obtain ⟨w, hw, hne, -⟩ := hg.params.ok hc hp
    obtain ⟨v, w, rfl⟩ := List.exists_cons_of_ne_nil hne
    have hahead : c.ahead = w ++ c'.current :: c'.ahead := (List.cons.inj hw.tokens).2
    have hk : c'.current.kind ≠ .punct .fatArrow := h _ (by rw [hahead]; simp)
    simp [Cursor.seesMark, Cursor.sees, hk]

/-- Tokens up to an end mark, without an arrow. -/
structure Closing (ts : List Token) : Prop where
  ended : (ts.getLast?.map Token.kind) = some .eof
  noArrow : ∀ t ∈ ts, t.kind ≠ .punct .fatArrow

namespace Closing
variable {t u : Token} {us w : List Token}

theorem cons (ht : t.kind ≠ .punct .fatArrow) (h : Closing us) : Closing (t :: us) where
  ended := by
    have hlast := h.ended
    cases us with
    | nil => cases hlast
    | cons => exact hlast
  noArrow := List.forall_mem_cons.mpr ⟨ht, h.noArrow⟩

theorem append (hw : ∀ t ∈ w, t.kind ≠ .punct .fatArrow) (h : Closing (u :: us)) :
    Closing (w ++ u :: us) where
  ended := by
    rw [List.getLast?_append, Option.or_of_isSome (by simp)]
    exact h.ended
  noArrow := List.forall_mem_append.mpr ⟨hw, h.noArrow⟩

end Closing

namespace Formula
open Grammar

theorem tokens_noArrow (f : Formula) : ∀ t ∈ f.tokens, t.kind ≠ .punct .fatArrow := by
  have hunary (op : UnaryOp) : (Token.operator op.text).kind ≠ .punct .fatArrow :=
    op.kind_ne (by decide)
  have hbinary (op : BinaryOp) : (Token.operator op.text).kind ≠ .punct .fatArrow :=
    op.kind_ne (by decide)
  induction f with simp_all [tokens, Token.name, Token.mark, or_imp]

/-! ## Reading an expression -/

theorem one_le_level (f : Formula) : 1 ≤ f.level := by
  cases f with
  | binary op => exact Nat.le_trans (by decide) op.level_bounds.1
  | name | paren | unary | conditional | assign => simp [level]

theorem expr_span (f : Formula) : f.expr.span = .nowhere := by cases f <;> rfl

/-- The expression is read before a token, up to the end of what that token goes on with; operators
that bind less tightly than a bound are left to a reader further out. -/
def Climbs (k : Nat) (f : Formula) : Prop :=
  ∀ {precedence : Nat} {u : Token} {us ws : List Token} {e : Expr}, precedence ≤ f.level →
    u.LooserThan f.edge → Closing (u :: us) →
    Yields (iterate (goesOn true precedence) (nested k).extend f.expr) (u :: us) e ws →
    Yields ((nested k).readExpression precedence) (f.tokens ++ u :: us) e ws

variable {k : Nat} {f : Formula}

/-- The expression ends before a token that binds less tightly. -/
theorem Climbs.stop (h : f.Climbs k) {bound : Nat} {u : Token} {us : List Token}
    (hl : bound ≤ f.level) (hb : bound ≠ 2) (hu : u.LooserThan bound) (hc : Closing (u :: us)) :
    Yields ((nested (k + 1)).expression bound) (f.tokens ++ u :: us) f.expr (u :: us) :=
  h hl (hu.mono (le_edge hl hb)) hc (yields_stop hu.looser)

section Before
variable {t u : Token} {us : List Token}

theorem tokens_cons (f : Formula) (u : Token) (us : List Token) :
    ∃ v vs, f.tokens ++ u :: us = v :: vs := List.exists_cons_of_ne_nil (by simp)

theorem length_lt_tokens (f : Formula) (u : Token) (us : List Token) :
    us.length < (f.tokens ++ u :: us).length := by
  rw [List.length_append, List.length_cons]
  omega

theorem advance_before (ht : t.kind ≠ .eof) (hs : t.span = .nowhere) :
    Yields advance (t :: (f.tokens ++ u :: us)) t (f.tokens ++ u :: us) := by
  obtain ⟨v, vs, hv⟩ := f.tokens_cons u us
  rw [hv]
  exact .advance ht hs

theorem consumeMark_before (p : Punctuator) :
    Yields (consumeMark p) (.mark p :: (f.tokens ++ u :: us)) () (f.tokens ++ u :: us) := by
  obtain ⟨v, vs, hv⟩ := f.tokens_cons u us
  rw [hv]
  exact .consumeMark rfl rfl

end Before

theorem climbs_name (text : String) : (name text).Climbs k := by
  intro precedence u us ws e _ hu _ h
  have hparen : u.kind ≠ .punct .lParen := by
    intro hk
    have hcall : u.precedence true = 17 := by rw [Token.precedence, hk]
    have hloose : 17 < 16 := hcall ▸ hu.looser (by rw [hcall]; decide)
    omega
  have hkind := hu.noFunction
  simp only [List.mem_cons, List.not_mem_nil, or_false, not_or] at hkind
  exact (yields_ident (by simp [hkind, hparen])).bind (.read h)

theorem climbs_paren (ih : f.Climbs k) : (paren f).Climbs (k + 1) := by
  intro precedence u us ws e _ _ hc h
  have hclose : Closing (.mark .rParen :: u :: us) := hc.cons (by rintro ⟨⟩)
  have hinner : Yields (nested (k + 1)).assignment (f.tokens ++ .mark .rParen :: u :: us) f.expr
      (.mark .rParen :: u :: us) :=
    ih.stop f.one_le_level (by decide) (Token.looser_mark rfl (by decide)) hclose
  obtain ⟨t, ts, hts⟩ := f.tokens_cons (.mark .rParen) (u :: us)
  have hall : Closing (.mark .lParen :: t :: ts) :=
    .cons (by rintro ⟨⟩) (hts ▸ hclose.append f.tokens_noArrow)
  have htokens : (paren f).tokens ++ u :: us = .mark .lParen :: t :: ts := by
    rw [← hts]
    simp [tokens]
  have hnone : Yields (nested (k + 1)).arrowParams (.mark .lParen :: t :: ts) none
      (.mark .lParen :: t :: ts) := by
    intro previous hp
    refine ⟨previous, hp, (movesOn_nested _).arrowParams_none ?_ ?_ true⟩
    · exact hall.ended
    · exact (List.forall_mem_cons.mp hall.noArrow).2
  rw [hts] at hinner
  rw [htokens]
  have hparen := yields_paren hnone (yields_sequence hinner (by rintro ⟨⟩)).withIn
  exact (yields_operand (.inr (.inl rfl)) (yields_primary_paren hparen)).bind (.read h)

theorem climbs_unary (ih : f.Climbs k) {op : UnaryOp} (hop : op ∈ UnaryOp.signs)
    (hf : 15 ≤ f.level) : (unary op f).Climbs (k + 1) := by
  intro precedence u us ws e _ hu hc h
  have hinner := ih.stop hf (by decide) hu hc
  have hspan := Token.operator_span op.text
  have hoperand : Yields (nested (k + 1)).operand ((unary op f).tokens ++ u :: us)
      (unary op f).expr (u :: us) := by
    refine .get fun previous => ?_
    have hc : (Cursor.on previous ((unary op f).tokens ++ u :: us)).current
      = .operator op.text := rfl
    simp only [hc, UnaryOp.ofToken?_operator hop, hspan]
    exact (advance_before (op.kind_ne (by decide)) hspan).bind
      (hinner.bind (Yields.spanFrom.bind .pure))
  exact hoperand.bind (.read h)

/-- An operator between operands goes on with the one on its left. -/
theorem climbs_binary {left right : Formula} (ihl : left.Climbs (k + 1)) (ihr : right.Climbs k)
    {op : BinaryOp} (hl : op.leftLevel ≤ left.level) (hr : op.rightLevel ≤ right.level) :
    (binary op left right).Climbs (k + 1) := by
  intro precedence u us ws e hp hu hc h
  have hbounds := op.level_bounds
  have hlevels : op.level ≤ op.leftLevel ∧ op.rightLevel ≠ 2 := by cases op <;> decide
  have hright := ihr.stop hr hlevels.2 hu hc
  rw [← op.rightPrecedence_level, ← op.precedence_operator] at hright
  have hcontinue : Yields ((nested (k + 1)).continueWith left.expr
        ((Token.operator op.text).precedence true) (.binary op))
      (.operator op.text :: (right.tokens ++ u :: us))
      (.binary op left.expr right.expr) (u :: us) :=
    (advance_before (op.kind_ne (by decide)) (Token.operator_span _)).bind (hright.bind .pure)
  have htokens : (binary op left right).tokens ++ u :: us
      = left.tokens ++ .operator op.text :: (right.tokens ++ u :: us) := by simp [tokens]
  have hclose := (hc.append right.tokens_noArrow).cons (op.kind_ne (by decide))
  have hp : precedence ≤ op.level := hp
  rw [htokens]
  -- Of the tokens after the left operand the operator is the first.
  refine ihl (by omega) (Token.looser_operator (lt_edge hl)) hclose (yields_step left.expr_span
    (Token.ofToken?_operator op) ?_ ?_ hcontinue (right.length_lt_tokens u us) h)
  · rw [op.precedence_operator]
    omega
  · rwa [op.precedence_operator]

theorem climbs_conditional {test yes no : Formula} (iht : test.Climbs (k + 1))
    (ihy : yes.Climbs k) (ihn : no.Climbs k) (ht : 3 ≤ test.level) :
    (conditional test yes no).Climbs (k + 1) := by
  intro precedence u us ws e hp hu hc h
  have hcolon : Closing (.mark .colon :: (no.tokens ++ u :: us)) :=
    .cons (by rintro ⟨⟩) (hc.append no.tokens_noArrow)
  have hyes : Yields (nested (k + 1)).assignment
      (yes.tokens ++ .mark .colon :: (no.tokens ++ u :: us)) yes.expr
      (.mark .colon :: (no.tokens ++ u :: us)) :=
    ihy.stop yes.one_le_level (by decide) (Token.looser_mark rfl (by decide)) hcolon
  have hno : Yields (nested (k + 1)).assignment (no.tokens ++ u :: us) no.expr (u :: us) :=
    ihn.stop no.one_le_level (by decide) hu hc
  have hcontinue : Yields ((nested (k + 1)).continueWith test.expr 2 .conditional)
      (.mark .question :: (yes.tokens ++ .mark .colon :: (no.tokens ++ u :: us)))
      (.conditional test.expr yes.expr no.expr) (u :: us) :=
    (advance_before (by rintro ⟨⟩) rfl).bind (hyes.withIn.bind ((consumeMark_before .colon).bind
      (hno.bind .pure)))
  have htokens : (conditional test yes no).tokens ++ u :: us = test.tokens
      ++ .mark .question :: (yes.tokens ++ .mark .colon :: (no.tokens ++ u :: us)) := by
    simp [tokens]
  rw [htokens]
  have hp : precedence ≤ 2 := hp
  refine iht (by omega) (Token.looser_question (le_edge ht (by decide)))
    (.cons (by rintro ⟨⟩) (hcolon.append yes.tokens_noArrow)) (yields_step test.expr_span rfl
      (by decide) hp hcontinue ?_ h)
  simp only [List.length_append, List.length_cons]
  omega

theorem climbs_assign {value : Formula} (ih : value.Climbs k) (target : String) :
    (assign target value).Climbs (k + 1) := by
  intro precedence u us ws e hp hu hc h
  have hvalue : Yields (nested (k + 1)).assignment (value.tokens ++ u :: us) value.expr
      (u :: us) := ih.stop value.one_le_level (by decide) hu hc
  have hcontinue : Yields
      ((nested (k + 1)).continueWith ⟨.nowhere, .ident target⟩ 1 (.assignment .assign))
      (.mark .eq :: (value.tokens ++ u :: us))
      (.assignment .assign ⟨.nowhere, .ident target⟩ value.expr) (u :: us) :=
    (advance_before (by rintro ⟨⟩) rfl).bind (hvalue.bind .pure)
  exact (yields_ident (by decide)).bind (.read (yields_step rfl rfl (by decide) hp hcontinue
    (value.length_lt_tokens u us) h))

/-- Every expression is read from its tokens, if the parts may be nested as deep as there are
tokens. -/
theorem climbs (hf : f.isGrouped) (hk : f.tokens.length ≤ k) : f.Climbs k := by
  -- What stands on the left of an operator is read at the same depth as the whole.
  induction f generalizing k with
  | name text => exact climbs_name text
  | paren inner ih =>
    simp only [tokens, List.length_cons, List.length_append] at hk
    obtain ⟨k, rfl⟩ := Nat.exists_eq_add_one_of_ne_zero (n := k) (by omega)
    exact climbs_paren (ih hf (by omega))
  | unary op operand ih =>
    obtain ⟨hop, hf, hl⟩ := isGrouped_unary.mp hf
    simp only [tokens, List.length_cons] at hk
    obtain ⟨k, rfl⟩ := Nat.exists_eq_add_one_of_ne_zero (n := k) (by omega)
    exact climbs_unary (ih hf (by omega)) hop hl
  | binary op left right ihl ihr =>
    obtain ⟨hleft, hright, hl, hr⟩ := isGrouped_binary.mp hf
    simp only [tokens, List.length_append, List.length_cons] at hk
    obtain ⟨k, rfl⟩ := Nat.exists_eq_add_one_of_ne_zero (n := k) (by omega)
    exact climbs_binary (ihl hleft (by omega)) (ihr hright (by omega)) hl hr
  | conditional test yes no iht ihy ihn =>
    obtain ⟨htest, hyes, hno, hl⟩ := isGrouped_conditional.mp hf
    simp only [tokens, List.length_append, List.length_cons] at hk
    obtain ⟨k, rfl⟩ := Nat.exists_eq_add_one_of_ne_zero (n := k) (by omega)
    exact climbs_conditional (iht htest (by omega)) (ihy hyes (by omega)) (ihn hno (by omega)) hl
  | assign target value ih =>
    obtain ⟨-, hf⟩ := isGrouped_assign.mp hf
    simp only [tokens, List.length_cons] at hk
    obtain ⟨k, rfl⟩ := Nat.exists_eq_add_one_of_ne_zero (n := k) (by omega)
    exact climbs_assign (ih hf (by omega)) target

/-! ## The expression as a statement -/

/-- The first tokens of the expression start neither a declaration nor a statement that is no
expression. -/
theorem starts (f : Formula) (u : Token) (us : List Token)
    (hu : u.kind ∉ [.punct .colon, .keyword .functionKw]) :
    ∃ t ts, f.tokens ++ u :: us = t :: ts ∧ t.span = .nowhere ∧ t.kind ∉ .eof :: statementStarts ∧
      (t.kind = .identifier → ∀ v ∈ ts.head?, v.kind ∉ [.punct .colon, .keyword .functionKw]) := by
  have hunary (op : UnaryOp) :
      (Token.operator op.text).kind ∉ .eof :: statementStarts := by
    cases op <;> decide
  have hbinary (op : BinaryOp) :
      (Token.operator op.text).kind ∉ [.punct .colon, .keyword .functionKw] := by
    cases op <;> decide
  induction f generalizing u us with
  | name text =>
    have hk : TokenKind.identifier ∉ .eof :: statementStarts := by decide
    refine ⟨_, _, rfl, rfl, hk, fun _ v hv => ?_⟩
    obtain rfl := Option.some.inj hv
    exact hu
  | paren inner => exact ⟨_, _, rfl, rfl, by decide, by rintro ⟨⟩⟩
  | unary op operand =>
    exact ⟨_, _, rfl, Token.operator_span _, hunary op, fun h => absurd h (op.kind_ne (by decide))⟩
  | binary op left right ihl =>
    rw [tokens, List.append_assoc]
    exact ihl _ _ (hbinary op)
  | conditional test yes no iht =>
    rw [tokens, List.append_assoc]
    exact iht _ _ (by decide)
  | assign target value =>
    have hk : TokenKind.identifier ∉ .eof :: statementStarts := by decide
    refine ⟨_, _, rfl, rfl, hk, fun _ v hv => ?_⟩
    obtain rfl := Option.some.inj hv
    decide

theorem bare_expr (f : Formula) : f.expr.bare .none = f.expr := by
  induction f with simp_all [expr, Expr.bare, ExprForm.bare]

end Formula

/-- An expression whose operands need no further parentheses is read from its tokens, with blanks
between them and a semicolon behind them, as one statement: the tree that was printed. -/
theorem Program.parse_formula {f : Formula} (hf : f.isGrouped) {gap : String}
    (hg : gap = "" ∨ gap = " ") :
    ∃ program, Program.parse (f.text ++ gap ++ ";") = .ok program ∧
      program.bare .none = ⟨.nowhere, [⟨.nowhere, .stmt ⟨.nowhere, .expr f.expr⟩⟩]⟩ := by
  have htokens := Formula.tokenize_text hf hg
  obtain ⟨t, ts, hts, hs, hk, hname⟩ := f.starts (.mark .semicolon) [.finish] (by decide)
  rw [List.mem_cons, not_or] at hk
  have hlength := congrArg List.length hts
  simp only [List.length_append, List.length_cons, List.length_nil] at hlength
  have hclose : Closing [.mark .semicolon, .finish] := ⟨rfl, by decide⟩
  have hread : Yields ((Grammar.nested (ts.length + 1)).readExpression 1)
      (f.tokens ++ [.mark .semicolon, .finish]) f.expr [.mark .semicolon, .finish] :=
    Formula.climbs hf (by omega) f.one_le_level (Token.looser_mark rfl (by decide)) hclose
      (Grammar.yields_stop (Token.looser_of_none rfl 1))
  rw [hts] at hread htokens
  have hitem := Grammar.yields_expressionItem hs hk.2 hname hread
  have hne : ts ≠ [] := by
    rintro rfl
    have := List.length_pos_iff.mpr f.tokens_ne_nil
    rw [List.length_nil] at hlength
    omega
  have hparse := parse_single htokens hs hk.1 rfl hne hitem
  simpa [Stmt.bare, StmtForm.bare, f.bare_expr] using hparse

/-- Equal operators in a row, powers of signs, conditionals in a row and operators that tell where
parentheses stand. -/
def sampleFormula : Formula :=
  .assign "x" (.conditional
    (.binary .nullish (.binary .sub (.binary .sub (.name "a") (.name "b")) (.paren (.assign
      "async" (.binary .sub (.name "c") (.name "d"))))) (.unary .typeOf (.unary .not (.name "e"))))
    (.assign "y" (.binary .pow (.unary .minus (.name "f")) (.binary .pow (.name "g")
      (.unary .delete (.paren (.name "h"))))))
    (.conditional (.binary .isIn (.name "$i") (.binary .div (.name "j") (.name "λ")))
      (.name "k") (.name "of")))

theorem Program.parse_sampleFormula : (sampleFormula.isGrouped ∧ ("" = "" ∨ "" = " ")) ∧
    ∃ program, Program.parse (sampleFormula.text ++ "" ++ ";") = .ok program ∧
      program.bare .none = ⟨.nowhere, [⟨.nowhere, .stmt ⟨.nowhere, .expr sampleFormula.expr⟩⟩]⟩ :=
  ⟨⟨by decide +kernel, .inl rfl⟩, Program.parse_formula (by decide +kernel) (.inl rfl)⟩

end ModuleBundler
