import ModuleBundler.Token.Stream
import ModuleBundler.Tree.Operator

/-! The operators that tokens stand for, and how tightly tokens bind. -/
namespace ModuleBundler

/-- The operator between two operands that a token stands for. -/
def BinaryOp.ofToken? : TokenKind → Option BinaryOp
  | .punct .plus => some .add
  | .punct .minus => some .sub
  | .punct .star => some .mul
  | .punct .slash => some .div
  | .punct .percent => some .mod
  | .punct .starStar => some .pow
  | .punct .eqEq => some .eq
  | .punct .bangEq => some .notEq
  | .punct .eqEqEq => some .strictEq
  | .punct .bangEqEq => some .strictNotEq
  | .punct .lt => some .lt
  | .punct .ltEq => some .ltEq
  | .punct .gt => some .gt
  | .punct .gtEq => some .gtEq
  | .punct .ampAmp => some .and
  | .punct .pipePipe => some .or
  | .punct .questionQuestion => some .nullish
  | .punct .amp => some .bitAnd
  | .punct .pipe => some .bitOr
  | .punct .caret => some .bitXor
  | .punct .ltLt => some .leftShift
  | .punct .gtGt => some .rightShift
  | .punct .gtGtGt => some .unsignedRightShift
  | .keyword .inKw => some .isIn
  | .keyword .instanceofKw => some .instanceOf
  | _ => none

/-- The storing operator that a token stands for. -/
def AssignmentOp.ofToken? : TokenKind → Option AssignmentOp
  | .punct .eq => some .assign
  | .punct .plusEq => some .addAssign
  | .punct .minusEq => some .subAssign
  | .punct .starEq => some .mulAssign
  | .punct .slashEq => some .divAssign
  | .punct .percentEq => some .modAssign
  | .punct .starStarEq => some .powAssign
  | .punct .ampAmpEq => some .andAssign
  | .punct .pipePipeEq => some .orAssign
  | .punct .questionQuestionEq => some .nullishAssign
  | .punct .ltLtEq => some .leftShiftAssign
  | .punct .gtGtEq => some .rightShiftAssign
  | .punct .gtGtGtEq => some .unsignedRightShiftAssign
  | .punct .ampEq => some .bitAndAssign
  | .punct .pipeEq => some .bitOrAssign
  | .punct .caretEq => some .bitXorAssign
  | _ => none

/-- The operator before an operand that a token stands for. -/
def UnaryOp.ofToken? : TokenKind → Option UnaryOp
  | .punct .plus => some .plus
  | .punct .minus => some .minus
  | .punct .bang => some .not
  | .punct .tilde => some .bitNot
  | .keyword .typeofKw => some .typeOf
  | .keyword .voidKw => some .void
  | .keyword .deleteKw => some .delete
  | .punct .plusPlus => some .preIncrement
  | .punct .minusMinus => some .preDecrement
  | _ => none

/-- The word that declares variables that a token stands for. -/
def VarKind.ofToken? : TokenKind → Option VarKind
  | .keyword .letKw => some .letVar
  | .keyword .constKw => some .constVar
  | .keyword .varKw => some .varVar
  | _ => none

/-- How a token goes on with the expression before it. -/
inductive Continuation where
  | assignment (op : AssignmentOp)
  | conditional
  | binary (op : BinaryOp)
  | increment (op : UnaryOp)
  | member
  | optional
  | index
  | call
  | template
  deriving DecidableEq, Repr

/-- How the token goes on with an expression before it, if it does. -/
def Continuation.ofToken? : TokenKind → Option Continuation
  | .punct .question => some .conditional
  | .punct .plusPlus => some (.increment .postIncrement)
  | .punct .minusMinus => some (.increment .postDecrement)
  | .punct .dot => some .member
  | .punct .questionDot => some .optional
  | .punct .lBracket => some .index
  | .punct .lParen => some .call
  | .noSubstitutionTemplate | .templateHead => some .template
  | kind =>
    match AssignmentOp.ofToken? kind, BinaryOp.ofToken? kind with
    | some op, _ => some (.assignment op)
    | none, some op => some (.binary op)
    | none, none => none

/-- How tightly the token binds to the expression before it; one that binds at 0 is left to what
comes after the expression. An operator after its operand stands on the same line, and `in` may be
ruled out. -/
def Token.precedence (allowIn : Bool) (t : Token) : Nat :=
  match t.kind with
  | .punct .eq | .punct .plusEq | .punct .minusEq | .punct .starEq | .punct .slashEq
  | .punct .percentEq | .punct .starStarEq | .punct .ampAmpEq | .punct .pipePipeEq
  | .punct .questionQuestionEq | .punct .ltLtEq | .punct .gtGtEq | .punct .gtGtGtEq
  | .punct .ampEq | .punct .pipeEq | .punct .caretEq => 1
  | .punct .question => 2
  | .punct .questionQuestion => 3
  | .punct .pipePipe => 4
  | .punct .ampAmp => 5
  | .punct .pipe => 6
  | .punct .caret => 7
  | .punct .amp => 8
  | .punct .eqEq | .punct .bangEq | .punct .eqEqEq | .punct .bangEqEq => 9
  | .keyword .inKw => if allowIn then 10 else 0
  | .punct .lt | .punct .gt | .punct .ltEq | .punct .gtEq | .keyword .instanceofKw => 10
  | .punct .ltLt | .punct .gtGt | .punct .gtGtGt => 11
  | .punct .plus | .punct .minus => 12
  | .punct .star | .punct .slash | .punct .percent => 13
  | .punct .starStar => 14
  | .punct .plusPlus | .punct .minusMinus => if t.newlineBefore then 0 else 16
  | .punct .dot | .punct .questionDot | .punct .lBracket | .punct .lParen
  | .noSubstitutionTemplate | .templateHead => 17
  | _ => 0

end ModuleBundler
