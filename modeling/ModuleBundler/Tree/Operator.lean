/-! The operators of expressions. -/
namespace ModuleBundler

/-- The operators between two operands. -/
inductive BinaryOp where
  | add | sub | mul | div | mod | pow
  | eq | notEq | strictEq | strictNotEq | lt | ltEq | gt | gtEq
  | and | or | nullish
  | bitAnd | bitOr | bitXor | leftShift | rightShift | unsignedRightShift
  | isIn | instanceOf
  deriving DecidableEq, Repr

/-- How the operator is written. -/
def BinaryOp.text : BinaryOp → String
  | add => "+" | sub => "-" | mul => "*" | div => "/" | mod => "%" | pow => "**"
  | eq => "==" | notEq => "!=" | strictEq => "===" | strictNotEq => "!=="
  | lt => "<" | ltEq => "<=" | gt => ">" | gtEq => ">="
  | and => "&&" | or => "||" | nullish => "??"
  | bitAnd => "&" | bitOr => "|" | bitXor => "^"
  | leftShift => "<<" | rightShift => ">>" | unsignedRightShift => ">>>"
  | isIn => "in" | instanceOf => "instanceof"

/-- How tightly the right operand of an operator that binds so tightly must bind: of two equal
operators the left one binds first, except for powers. -/
def BinaryOp.rightPrecedence (op : BinaryOp) (precedence : Nat) : Nat :=
  if op = .pow then 14 else precedence + 1

/-- The operators before or after one operand. -/
inductive UnaryOp where
  | plus | minus | not | bitNot | typeOf | void | delete
  | preIncrement | preDecrement | postIncrement | postDecrement
  deriving DecidableEq, Repr

/-- How the operator is written. -/
def UnaryOp.text : UnaryOp → String
  | plus => "+" | minus => "-" | not => "!" | bitNot => "~" | typeOf => "typeof"
  | void => "void" | delete => "delete"
  | preIncrement | postIncrement => "++"
  | preDecrement | postDecrement => "--"

/-- The operators that store a value. -/
inductive AssignmentOp where
  | assign | addAssign | subAssign | mulAssign | divAssign | modAssign | powAssign
  | leftShiftAssign | rightShiftAssign | unsignedRightShiftAssign
  | bitAndAssign | bitOrAssign | bitXorAssign | andAssign | orAssign | nullishAssign
  deriving DecidableEq, Repr

/-- The flavours of a method. -/
inductive MethodKind where
  | method | getter | setter
  deriving DecidableEq, Repr

/-- The words that declare variables. -/
inductive VarKind where
  | letVar | constVar | varVar
  deriving DecidableEq, Repr

/-- How the word is written. -/
def VarKind.text : VarKind → String
  | letVar => "let" | constVar => "const" | varVar => "var"

end ModuleBundler
