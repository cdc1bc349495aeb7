import ModuleBundler.Proofs.Token.Legible

/-! Expressions of names, operators, conditionals, assignments to names and parentheses, and the
tokens that they are printed as. -/
namespace ModuleBundler
open ModuleBundler.Text

/-- The reserved word, operator or delimiter that has a text. -/
def Token.operator (text : String) : Token :=
  match Keyword.ofText? text, Punctuator.byLength.find? (·.text == text) with
  | some k, _ => .word k
  | none, some p => .mark p
  | none, none => .name text

theorem Token.operator_span (text : String) : (operator text).span = .nowhere := by
  unfold operator
  split <;> rfl

namespace BinaryOp

/-- The operators from those that bind loosest to those that bind tightest. -/
def table : List (List BinaryOp) :=
  [[nullish], [or], [and], [bitOr], [bitXor], [bitAnd], [eq, notEq, strictEq, strictNotEq],
   [lt, gt, ltEq, gtEq, isIn, instanceOf], [leftShift, rightShift, unsignedRightShift], [add, sub],
   [mul, div, mod], [pow]]

/-- How tightly the operator binds: the rows of the table are counted from three, after the
assignment and the conditional. -/
def level (op : BinaryOp) : Nat := table.findIdx (·.contains op) + 3

/-- How tightly its left operand binds. -/
def leftLevel (op : BinaryOp) : Nat := if op = pow then op.level + 1 else op.level

/-- How tightly its right operand binds. -/
def rightLevel (op : BinaryOp) : Nat := if op = pow then op.level else op.level + 1

theorem precedence_operator (op : BinaryOp) :
    (Token.operator op.text).precedence true = op.level := by cases op <;> decide

theorem rightPrecedence_level (op : BinaryOp) : op.rightPrecedence op.level = op.rightLevel := by
  cases op <;> decide

theorem level_bounds (op : BinaryOp) : 3 ≤ op.level ∧ op.level ≤ 14 := by cases op <;> decide

theorem ofToken?_operator (op : BinaryOp) : ofToken? (Token.operator op.text).kind = some op := by
  cases op <;> decide

theorem kind_ne (op : BinaryOp) {kind : TokenKind}
    (hk : kind ∈ [.eof, .punct .fatArrow]) : (Token.operator op.text).kind ≠ kind := by
  have h : (Token.operator op.text).kind ∉ [.eof, .punct .fatArrow] := by cases op <;> decide
  rintro rfl
  exact h hk

theorem legible_operator (op : BinaryOp) : (Token.operator op.text).Legible true := by
  cases op with
  | isIn => exact .word .inKw
  | instanceOf => exact .word .instanceofKw
  | _ => exact .mark (by decide) fun _ => rfl

end BinaryOp

namespace UnaryOp

/-- The operators that stand before an operand and store nothing. -/
def signs : List UnaryOp := [plus, minus, not, bitNot, typeOf, void, delete]

theorem ofToken?_operator {op : UnaryOp} (h : op ∈ signs) :
    ofToken? (Token.operator op.text).kind = some op := by
  revert h
  cases op <;> decide

theorem kind_ne (op : UnaryOp) {kind : TokenKind}
    (hk : kind ∈ [.eof, .identifier, .punct .fatArrow]) :
    (Token.operator op.text).kind ≠ kind := by
  have h : (Token.operator op.text).kind ∉ [.eof, .identifier, .punct .fatArrow] := by
    cases op <;> decide
  rintro rfl
  exact h hk

theorem legible_operator (op : UnaryOp) (ends : Bool) : (Token.operator op.text).Legible ends := by
  cases op with
  | typeOf => exact .word .typeofKw
  | void => exact .word .voidKw
  | delete => exact .word .deleteKw
  | _ => exact .mark (by decide) fun h => absurd h (by decide)

end UnaryOp

/-- An expression of names, operators, conditionals, assignments to names and parentheses. -/
inductive Formula where
  | name (text : String)
  | paren (inner : Formula)
  | unary (op : UnaryOp) (operand : Formula)
  | binary (op : BinaryOp) (left right : Formula)
  | conditional (test yes no : Formula)
  | assign (target : String) (value : Formula)
  deriving DecidableEq, Repr

namespace Formula

/-- The expression, which stands nowhere. -/
def expr : Formula → Expr
  | name text => ⟨.nowhere, .ident text⟩
  | paren inner => ⟨.nowhere, .paren inner.expr⟩
  | unary op operand => ⟨.nowhere, .unary op operand.expr⟩
  | binary op left right => ⟨.nowhere, .binary op left.expr right.expr⟩
  | conditional test yes no => ⟨.nowhere, .conditional test.expr yes.expr no.expr⟩
  | assign target value =>
    ⟨.nowhere, .assignment .assign ⟨.nowhere, .ident target⟩ value.expr⟩

/-- The tokens of the expression. -/
def tokens : Formula → List Token
  | name text => [.name text]
  | paren inner => .mark .lParen :: (inner.tokens ++ [.mark .rParen])
  | unary op operand => .operator op.text :: operand.tokens
  | binary op left right => left.tokens ++ .operator op.text :: right.tokens
  | conditional test yes no =>
    test.tokens ++ .mark .question :: (yes.tokens ++ .mark .colon :: no.tokens)
  | assign target value => .name target :: .mark .eq :: value.tokens

/-- The text of the expression: its tokens with single blanks between them. -/
def text (f : Formula) : String := " ".intercalate (f.tokens.map Token.value)

example : (binary .pow (unary .typeOf (name "a")) (paren (assign "b" (name "c")))).text
    = "typeof a ** ( b = c )" := by decide +kernel

/-- How tightly the expression binds. -/
def level : Formula → Nat
  | name _ | paren _ => 16
  | unary .. => 15
  | binary op .. => op.level
  | conditional .. => 2
  | assign .. => 1

/-- The operands need no parentheses besides those that they have; names are no reserved words. -/
def isGrouped : Formula → Bool
  | name text => isPlainName text
  | paren inner => inner.isGrouped
  | unary op operand => op ∈ UnaryOp.signs && operand.isGrouped && 15 ≤ operand.level
  | binary op left right => left.isGrouped && right.isGrouped
      && op.leftLevel ≤ left.level && op.rightLevel ≤ right.level
  | conditional test yes no => test.isGrouped && yes.isGrouped && no.isGrouped && 3 ≤ test.level
  | assign target value => isPlainName target && value.isGrouped

section Grouped
variable {f left right test yes no : Formula}

theorem isGrouped_unary {op : UnaryOp} : (unary op f).isGrouped = true ↔
    op ∈ UnaryOp.signs ∧ f.isGrouped = true ∧ 15 ≤ f.level := by
  simp [isGrouped, and_assoc]

theorem isGrouped_binary {op : BinaryOp} : (binary op left right).isGrouped = true ↔
    left.isGrouped = true ∧ right.isGrouped = true ∧ op.leftLevel ≤ left.level ∧
      op.rightLevel ≤ right.level := by
  simp [isGrouped, and_assoc]

theorem isGrouped_conditional : (conditional test yes no).isGrouped = true ↔
    test.isGrouped = true ∧ yes.isGrouped = true ∧ no.isGrouped = true ∧ 3 ≤ test.level := by
  simp [isGrouped, and_assoc]

theorem isGrouped_assign {target : String} : (assign target f).isGrouped = true ↔
    isPlainName target = true ∧ f.isGrouped = true := by
  simp [isGrouped]

end Grouped

/-- The tokens can be read from their texts, and a slash after them divides. -/
def PrintsOperand (ends : Bool) (ts : List Token) : Prop :=
  Printable ends ts ∧ endsAfter ends ts = true

namespace PrintsOperand
variable {ends : Bool} {t : Token} {ts us : List Token}

theorem cons (ht : t.Legible ends) (h : PrintsOperand t.kind.endsExpression ts) :
    PrintsOperand ends (t :: ts) := ⟨.cons ht h.1, h.2⟩

theorem append (h : PrintsOperand ends ts) (hu : PrintsOperand true us) :
    PrintsOperand ends (ts ++ us) := by
  refine ⟨h.1.append (h.2 ▸ hu.1), ?_⟩
  rw [endsAfter, List.foldl_append, ← endsAfter, ← endsAfter, h.2, hu.2]

end PrintsOperand

theorem printsOperand {f : Formula} (hf : f.isGrouped) (ends : Bool) :
    PrintsOperand ends f.tokens := by
  have hmark {p : Punctuator} {ends : Bool} (hp : p ≠ .lBrace) (hs : p.chars.head? ≠ some '/') :
      (Token.mark p).Legible ends := .mark hp fun h => absurd h hs
  induction f generalizing ends with
  | name text => exact ⟨.cons (.name hf) .nil, rfl⟩
  | paren inner ih =>
    have hclose : PrintsOperand true [.mark .rParen] :=
      ⟨.cons (hmark (by decide) (by decide)) .nil, rfl⟩
    exact .cons (hmark (by decide) (by decide)) ((ih hf _).append hclose)
  | unary op operand ih =>
    obtain ⟨-, hf, -⟩ := isGrouped_unary.mp hf
    exact .cons (op.legible_operator _) (ih hf _)
  | binary op left right ihl ihr =>
    obtain ⟨hl, hr, -, -⟩ := isGrouped_binary.mp hf
    exact (ihl hl _).append (.cons op.legible_operator (ihr hr _))
  | conditional test yes no iht ihy ihn =>
    obtain ⟨ht, hy, hn, -⟩ := isGrouped_conditional.mp hf
    have hno : PrintsOperand true (.mark .colon :: no.tokens) :=
      .cons (hmark (by decide) (by decide)) (ihn hn _)
    have hyes : PrintsOperand true (.mark .question :: (yes.tokens ++ .mark .colon :: no.tokens)) :=
      .cons (hmark (by decide) (by decide)) ((ihy hy _).append hno)
    exact (iht ht _).append hyes
  | assign target value ih =>
    obtain ⟨hname, hf⟩ := isGrouped_assign.mp hf
    exact .cons (.name hname) (.cons (hmark (by decide) (by decide)) (ih hf _))

theorem toList_text (f : Formula) : f.text.toList = Printable.text f.tokens := by
  simp [text, Printable.text, String.toList_intercalate, Function.comp_def]

theorem tokens_ne_nil (f : Formula) : f.tokens ≠ [] := by cases f <;> simp [tokens]

/-- The text of the expression with a semicolon has the tokens of both. -/
theorem tokenize_text {f : Formula} (hf : f.isGrouped) {gap : String} (hg : gap = "" ∨ gap = " ") :
    (tokenize (f.text ++ gap ++ ";")).map Token.unplaced
      = (f.tokens ++ [Token.mark .semicolon, .finish]).map Token.unplaced := by
  have hgap : gap.toList = [] ∨ gap.toList = [' '] := by rcases hg with rfl | rfl <;> decide
  have hparted : Parted (gap.toList ++ [';']) := by
    rcases hgap with h | h
    · rw [h]
      exact .inr ⟨';', [], Text.stops_semicolon, rfl⟩
    · rw [h]
      exact .blank _
  obtain ⟨hprint, hends⟩ := printsOperand hf false
  have hsemicolon : Spells [] true (gap.toList ++ [';']) [.mark .semicolon, .finish] :=
    .legible (t := .mark .semicolon) (x := []) hgap
      (.mark (by decide) fun _ => rfl) (.inl rfl) .nil
  have hsource : (f.text ++ gap ++ ";").toList
      = Printable.text f.tokens ++ (gap.toList ++ [';']) := by
    simp [toList_text]
  have hspells := hprint.spells f.tokens_ne_nil (.inl rfl) hparted (hends.symm ▸ hsemicolon)
  rw [tokenize, hsource, hprint.hashbang f.tokens_ne_nil hparted]
  exact hspells _ rfl rfl

end Formula
end ModuleBundler
