/-! The kinds of tokens that a script is made of. -/
namespace ModuleBundler

/-- The reserved words. Words such as async, of, from, as, get, set and static are not among
them: they are names, and their place decides what they mean. -/
inductive Keyword where
  | letKw | constKw | varKw | functionKw | returnKw | ifKw | elseKw | forKw | whileKw | doKw
  | breakKw | continueKw | switchKw | caseKw | defaultKw | classKw | extendsKw | importKw
  | exportKw | newKw | thisKw | superKw | typeofKw | instanceofKw | inKw | voidKw | deleteKw
  | nullKw | trueKw | falseKw | awaitKw | yieldKw | tryKw | catchKw | finallyKw | throwKw
  | debuggerKw | withKw
  deriving DecidableEq, Repr

namespace Keyword

/-- Every reserved word. -/
def all : List Keyword :=
  [letKw, constKw, varKw, functionKw, returnKw, ifKw, elseKw, forKw, whileKw, doKw,
   breakKw, continueKw, switchKw, caseKw, defaultKw, classKw, extendsKw, importKw,
   exportKw, newKw, thisKw, superKw, typeofKw, instanceofKw, inKw, voidKw, deleteKw,
   nullKw, trueKw, falseKw, awaitKw, yieldKw, tryKw, catchKw, finallyKw, throwKw,
   debuggerKw, withKw]

/-- How the word is written. -/
def text : Keyword → String
  | letKw => "let" | constKw => "const" | varKw => "var" | functionKw => "function"
  | returnKw => "return" | ifKw => "if" | elseKw => "else" | forKw => "for"
  | whileKw => "while" | doKw => "do" | breakKw => "break" | continueKw => "continue"
  | switchKw => "switch" | caseKw => "case" | defaultKw => "default" | classKw => "class"
  | extendsKw => "extends" | importKw => "import" | exportKw => "export" | newKw => "new"
  | thisKw => "this" | superKw => "super" | typeofKw => "typeof"
  | instanceofKw => "instanceof" | inKw => "in" | voidKw => "void" | deleteKw => "delete"
  | nullKw => "null" | trueKw => "true" | falseKw => "false" | awaitKw => "await"
  | yieldKw => "yield" | tryKw => "try" | catchKw => "catch" | finallyKw => "finally"
  | throwKw => "throw" | debuggerKw => "debugger" | withKw => "with"

/-- What messages call the word: its text with a capital. -/
def label : Keyword → String
  | letKw => "Let" | constKw => "Const" | varKw => "Var" | functionKw => "Function"
  | returnKw => "Return" | ifKw => "If" | elseKw => "Else" | forKw => "For"
  | whileKw => "While" | doKw => "Do" | breakKw => "Break" | continueKw => "Continue"
  | switchKw => "Switch" | caseKw => "Case" | defaultKw => "Default" | classKw => "Class"
  | extendsKw => "Extends" | importKw => "Import" | exportKw => "Export" | newKw => "New"
  | thisKw => "This" | superKw => "Super" | typeofKw => "Typeof"
  | instanceofKw => "Instanceof" | inKw => "In" | voidKw => "Void" | deleteKw => "Delete"
  | nullKw => "Null" | trueKw => "True" | falseKw => "False" | awaitKw => "Await"
  | yieldKw => "Yield" | tryKw => "Try" | catchKw => "Catch" | finallyKw => "Finally"
  | throwKw => "Throw" | debuggerKw => "Debugger" | withKw => "With"

/-- The reserved word with a given text. -/
def ofText? (word : String) : Option Keyword := all.find? (·.text == word)

theorem mem_all (k : Keyword) : k ∈ all := by cases k <;> decide

theorem ofText?_text (k : Keyword) : ofText? k.text = some k := by cases k <;> decide

theorem text_of_ofText? {word : String} {k : Keyword} (h : ofText? word = some k) :
    k.text = word := by
  simpa using List.find?_some h

end Keyword

/-- The operators and delimiters. -/
inductive Punctuator where
  | plus | minus | star | slash | percent | starStar
  | eq | eqEq | eqEqEq | bangEq | bangEqEq | lt | gt | ltEq | gtEq
  | ampAmp | pipePipe | bang | amp | pipe | caret | tilde | ltLt | gtGt | gtGtGt
  | plusEq | minusEq | starEq | slashEq | percentEq | starStarEq
  | ampAmpEq | pipePipeEq | questionQuestionEq | ltLtEq | gtGtEq | gtGtGtEq
  | ampEq | pipeEq | caretEq
  | questionQuestion | questionDot | plusPlus | minusMinus | fatArrow | dotDotDot
  | lParen | rParen | lBrace | rBrace | lBracket | rBracket
  | semicolon | comma | dot | colon | question
  deriving DecidableEq, Repr

namespace Punctuator

/-- How the operator or delimiter is written. -/
def text : Punctuator → String
  | plus => "+" | minus => "-" | star => "*" | slash => "/" | percent => "%"
  | starStar => "**" | eq => "=" | eqEq => "==" | eqEqEq => "===" | bangEq => "!="
  | bangEqEq => "!==" | lt => "<" | gt => ">" | ltEq => "<=" | gtEq => ">="
  | ampAmp => "&&" | pipePipe => "||" | bang => "!" | amp => "&" | pipe => "|"
  | caret => "^" | tilde => "~" | ltLt => "<<" | gtGt => ">>" | gtGtGt => ">>>"
  | plusEq => "+=" | minusEq => "-=" | starEq => "*=" | slashEq => "/="
  | percentEq => "%=" | starStarEq => "**=" | ampAmpEq => "&&=" | pipePipeEq => "||="
  | questionQuestionEq => "??=" | ltLtEq => "<<=" | gtGtEq => ">>=" | gtGtGtEq => ">>>="
  | ampEq => "&=" | pipeEq => "|=" | caretEq => "^=" | questionQuestion => "??"
  | questionDot => "?." | plusPlus => "++" | minusMinus => "--" | fatArrow => "=>"
  | dotDotDot => "..." | lParen => "(" | rParen => ")" | lBrace => "\x7b"
  | rBrace => "\x7d" | lBracket => "[" | rBracket => "]" | semicolon => ";"
  | comma => "," | dot => "." | colon => ":" | question => "?"

/-- What messages call the operator or delimiter. -/
def label : Punctuator → String
  | plus => "Plus" | minus => "Minus" | star => "Star" | slash => "Slash"
  | percent => "Percent" | starStar => "StarStar" | eq => "Eq" | eqEq => "EqEq"
  | eqEqEq => "EqEqEq" | bangEq => "BangEq" | bangEqEq => "BangEqEq" | lt => "Lt"
  | gt => "Gt" | ltEq => "LtEq" | gtEq => "GtEq" | ampAmp => "AmpAmp"
  | pipePipe => "PipePipe" | bang => "Bang" | amp => "Amp" | pipe => "Pipe"
  | caret => "Caret" | tilde => "Tilde" | ltLt => "LtLt" | gtGt => "GtGt"
  | gtGtGt => "GtGtGt" | plusEq => "PlusEq" | minusEq => "MinusEq" | starEq => "StarEq"
  | slashEq => "SlashEq" | percentEq => "PercentEq" | starStarEq => "StarStarEq"
  | ampAmpEq => "AmpAmpEq" | pipePipeEq => "PipePipeEq"
  | questionQuestionEq => "QuestionQuestionEq" | ltLtEq => "LtLtEq" | gtGtEq => "GtGtEq"
  | gtGtGtEq => "GtGtGtEq" | ampEq => "AmpEq" | pipeEq => "PipeEq" | caretEq => "CaretEq"
  | questionQuestion => "QuestionQuestion" | questionDot => "QuestionDot"
  | plusPlus => "PlusPlus" | minusMinus => "MinusMinus" | fatArrow => "FatArrow"
  | dotDotDot => "DotDotDot" | lParen => "LParen" | rParen => "RParen"
  | lBrace => "LBrace" | rBrace => "RBrace" | lBracket => "LBracket"
  | rBracket => "RBracket" | semicolon => "Semicolon" | comma => "Comma" | dot => "Dot"
  | colon => "Colon" | question => "Question"

/-- Every operator and delimiter, the longer ones first. -/
def byLength : List Punctuator :=
  [gtGtGtEq,
   eqEqEq, bangEqEq, gtGtGt, starStarEq, ampAmpEq, pipePipeEq, questionQuestionEq, ltLtEq,
   gtGtEq, dotDotDot,
   starStar, eqEq, bangEq, ltEq, gtEq, ampAmp, pipePipe, ltLt, gtGt, plusEq, minusEq, starEq,
   slashEq, percentEq, ampEq, pipeEq, caretEq, questionQuestion, questionDot, plusPlus,
   minusMinus, fatArrow,
   plus, minus, star, slash, percent, eq, lt, gt, bang, amp, pipe, caret, tilde,
   lParen, rParen, lBrace, rBrace, lBracket, rBracket, semicolon, comma, dot, colon, question]

theorem mem_byLength (p : Punctuator) : p ∈ byLength := by cases p <;> decide

/-- The characters of the operator or delimiter. -/
def chars (p : Punctuator) : List Char := p.text.toList

end Punctuator

/-- What a token is. -/
inductive TokenKind where
  | keyword (word : Keyword)
  | numberLiteral
  | bigIntLiteral
  | stringLiteral
  | regexLiteral
  /-- A template without substitutions. -/
  | noSubstitutionTemplate
  /-- A template up to its first substitution. -/
  | templateHead
  /-- A template between two substitutions. -/
  | templateMiddle
  /-- A template after its last substitution. -/
  | templateTail
  | identifier
  /-- A name after a number sign. -/
  | privateName
  | punct (mark : Punctuator)
  | eof
  /-- Text that is no token; its value says what is wrong. -/
  | error
  deriving DecidableEq, Repr

namespace TokenKind

/-- What messages call a token of this kind. -/
def label : TokenKind → String
  | keyword k => k.label
  | numberLiteral => "NumberLiteral" | bigIntLiteral => "BigIntLiteral"
  | stringLiteral => "StringLiteral" | regexLiteral => "RegexLiteral"
  | noSubstitutionTemplate => "NoSubstitutionTemplate" | templateHead => "TemplateHead"
  | templateMiddle => "TemplateMiddle" | templateTail => "TemplateTail"
  | identifier => "Identifier" | privateName => "PrivateName"
  | punct p => p.label
  | eof => "Eof" | error => "Error"

/-- The token is a reserved word. -/
def isKeyword : TokenKind → Bool
  | keyword _ => true
  | _ => false

/-- The token can be the last one of an expression, so that a slash after it divides;
after any other token a slash opens a regular expression. -/
def endsExpression : TokenKind → Bool
  | keyword k => (k matches .thisKw | .superKw | .nullKw | .trueKw | .falseKw)
  | numberLiteral | bigIntLiteral | stringLiteral | regexLiteral | noSubstitutionTemplate
  | templateTail | identifier | privateName => true
  | punct p => (p matches .rParen | .rBracket | .rBrace | .plusPlus | .minusMinus)
  | templateHead | templateMiddle | eof | error => false

/-- The token can name a property. -/
def isName : TokenKind → Bool
  | keyword _ | identifier | privateName => true
  | _ => false

end TokenKind
end ModuleBundler
