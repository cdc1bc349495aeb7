import ModuleBundler.Text.Character
import ModuleBundler.Token.Escape
import ModuleBundler.Token.Kind

/-! How far a token reaches into the text that starts with it, and what it denotes. -/
namespace ModuleBundler
open ModuleBundler.Text

/-- A token at the start of a text: its kind, the number of its characters and its value. -/
structure Lexeme where
  kind : TokenKind
  size : Nat
  value : String
  deriving DecidableEq, Repr

namespace Lexeme

/-- A token whose value is its own text. -/
def verbatim (kind : TokenKind) (text : List Char) : Lexeme :=
  ⟨kind, text.length, String.ofList text⟩

/-- Text that is no token, with what is wrong. -/
def fault (size : Nat) (message : String) : Lexeme := ⟨.error, size, message⟩

/-- The text of a line comment after its slashes. -/
def lineComment (cs : List Char) : List Char := cs.takeWhile fun c => !isLineTerminator c

/-- The text of a block comment after its opening, with the closing, if there is one. -/
def blockComment? : List Char → Option (List Char)
  | '*' :: '/' :: _ => some ['*', '/']
  | c :: cs => (c :: ·) <$> blockComment? cs
  | [] => none

/-- The blanks and comments before a token; a comment that is never closed is not among them. -/
def gap : List Char → List Char
  | [] => []
  | '/' :: '/' :: cs =>
    let text := lineComment cs
    '/' :: '/' :: (text ++ gap (cs.drop text.length))
  | '/' :: '*' :: cs =>
    match blockComment? cs with
    | some text => '/' :: '*' :: (text ++ gap (cs.drop text.length))
    | none => []
  | c :: cs => if isBlank c then c :: gap cs else []
  termination_by cs => cs.length
  decreasing_by all_goals simp; try omega

/-- The text opens a comment. -/
def opensComment : List Char → Bool
  | '/' :: '*' :: _ => true
  | _ => false

/-- The inside of a string: all up to its quote or a line break, where a backslash takes the
next character, or the two of a carriage return and line feed, with it. -/
def stringBody (quote : Char) : List Char → List Char
  | '\\' :: '\r' :: '\n' :: cs => '\\' :: '\r' :: '\n' :: stringBody quote cs
  | '\\' :: c :: cs => '\\' :: c :: stringBody quote cs
  | c :: cs => if c = quote ∨ c = '\n' ∨ c = '\r' then [] else c :: stringBody quote cs
  | [] => []

/-- A string after its opening quote. -/
def string (quote : Char) (cs : List Char) : Lexeme :=
  let body := stringBody quote cs
  if (cs.drop body.length).head? = some quote then
    ⟨.stringLiteral, body.length + 2, String.ofList (Escape.decode body)⟩
  else
    fault (body.length + 1) "Unterminated string literal"

/-- The text of a template up to its closing mark or its next substitution. -/
def templateBody : List Char → List Char
  | '\\' :: c :: cs => '\\' :: c :: templateBody cs
  | '$' :: '{' :: _ => []
  | c :: cs => if c = '`' then [] else c :: templateBody cs
  | [] => []

/-- A piece of a template after its opening mark, or after the brace that closes a
substitution. -/
def template (opening : Bool) (cs : List Char) : Lexeme :=
  let body := templateBody cs
  let value := String.ofList (Escape.decode body)
  match cs.drop body.length with
  | '`' :: _ =>
    ⟨if opening then .noSubstitutionTemplate else .templateTail, body.length + 2, value⟩
  | '$' :: _ =>
    ⟨if opening then .templateHead else .templateMiddle, body.length + 3, value⟩
  | _ => fault (body.length + 1) "Unterminated template literal"

/-- The digits of a radix and the underscores between them. -/
def digitRun (radix : Nat) (cs : List Char) : List Char :=
  cs.takeWhile fun c => isDigitOf radix c || c == '_'

/-- The exponent of a decimal number, which needs a digit after its mark and sign. -/
def exponent : List Char → List Char
  | mark :: c :: cs =>
    if mark = 'e' ∨ mark = 'E' then
      if c.isDigit then mark :: digitRun 10 (c :: cs)
      else if (c = '+' ∨ c = '-') ∧ cs.head?.any Char.isDigit then mark :: c :: digitRun 10 cs
      else []
    else []
  | _ => []

/-- The radix that a letter after a zero announces. -/
def radix? (mark : Char) : Option Nat :=
  if mark = 'x' ∨ mark = 'X' then some 16
  else if mark = 'o' ∨ mark = 'O' then some 8
  else if mark = 'b' ∨ mark = 'B' then some 2
  else none

/-- Digits are kept without the underscores between them. -/
def digitText (cs : List Char) : List Char := cs.filter (· != '_')

/-- A number with a radix mark. -/
def radixNumber (radix : Nat) (mark : Char) (cs : List Char) : Lexeme :=
  let digits := digitRun radix cs
  let value := String.ofList ('0' :: mark.toLower :: digitText digits)
  if (cs.drop digits.length).head? = some 'n' then ⟨.bigIntLiteral, digits.length + 3, value⟩
  else ⟨.numberLiteral, digits.length + 2, value⟩

/-- The point of a decimal number and the digits after it. -/
def fraction : List Char → List Char
  | '.' :: cs => '.' :: digitRun 10 cs
  | _ => []

/-- A number that starts with a digit and has no radix mark. -/
def decimalNumber (cs : List Char) : Lexeme :=
  let whole := digitRun 10 cs
  let rest := cs.drop whole.length
  if rest.head? = some 'n' then
    ⟨.bigIntLiteral, whole.length + 1, String.ofList (digitText whole)⟩
  else
    let decimals := fraction rest
    let text := whole ++ decimals ++ exponent (rest.drop decimals.length)
    ⟨.numberLiteral, text.length, String.ofList (digitText text)⟩

/-- A number that starts with a digit. -/
def number (cs : List Char) : Lexeme :=
  match cs with
  | '0' :: mark :: r =>
    match radix? mark with
    | some radix => radixNumber radix mark r
    | none => decimalNumber cs
  | _ => decimalNumber cs

/-- A number whose point comes first, after the point: it gets a zero before it. -/
def pointNumber (cs : List Char) : Lexeme :=
  let fraction := digitRun 10 cs
  let text := fraction ++ exponent (cs.drop fraction.length)
  ⟨.numberLiteral, text.length + 1, String.ofList ('0' :: '.' :: digitText text)⟩

/-- The number of characters that write a name. -/
def nameSize (parts : List (Char × Nat)) : Nat := parts.foldr (fun part size => part.2 + size) 0

/-- A name or a reserved word; a word with an escape in it is a name. -/
def name (cs : List Char) : Lexeme :=
  let parts := Escape.nameParts cs
  let value := String.ofList (parts.map Prod.fst)
  if parts.isEmpty then fault 1 "Unexpected character: \\"
  else
    let size := nameSize parts
    match Keyword.ofText? value with
    | some word =>
      ⟨if (cs.take size).contains '\\' then .identifier else .keyword word, size, value⟩
    | none => ⟨.identifier, size, value⟩

/-- A private name, after its number sign. -/
def privateName (cs : List Char) : Lexeme :=
  let parts := Escape.nameParts cs
  if parts.isEmpty then fault 1 "Unexpected character: #"
  else ⟨.privateName, nameSize parts + 1, String.ofList ('#' :: parts.map Prod.fst)⟩

/-- The inside of a regular expression with the closing slash, which a class in brackets
hides; there is none before a line break. -/
def regexBody? (inClass : Bool) : List Char → Option (List Char)
  | '\\' :: c :: cs =>
    if isLineTerminator c then none else ('\\' :: c :: ·) <$> regexBody? inClass cs
  | c :: cs =>
    if isLineTerminator c then none
    else if c = '/' ∧ inClass = false then some ['/']
    else (c :: ·) <$> regexBody? (c = '[' ∨ (inClass ∧ c ≠ ']')) cs
  | [] => none

/-- A regular expression with its flags, after its opening slash. -/
def regex (cs : List Char) : Lexeme :=
  match regexBody? false cs with
  | some body =>
    let flags := (cs.drop body.length).takeWhile isLetterOrNumber
    verbatim .regexLiteral ('/' :: (body ++ flags))
  | none =>
    fault ((cs.takeWhile fun c => !isLineTerminator c).length + 1)
      "Unterminated regular expression"

/-- A question mark and a point before a digit are two tokens. -/
def fits (cs : List Char) (p : Punctuator) : Bool :=
  p.chars.isPrefixOf cs
    && !(p == .questionDot && (cs.drop 2).head?.any Char.isDigit)

/-- The longest operator or delimiter at the start of the text. -/
def punctuator? (cs : List Char) : Option Punctuator := Punctuator.byLength.find? (fits cs)

/-- An operator or delimiter, or else a character that starts no token. -/
def mark (c : Char) (cs : List Char) : Lexeme :=
  match punctuator? (c :: cs) with
  | some p => verbatim (.punct p) p.chars
  | none => fault 1 ("Unexpected character: " ++ String.singleton c)

/-- The token that starts with a character, if a slash divides and a closing brace is one. -/
def plain (divides : Bool) (c : Char) (cs : List Char) : Lexeme :=
  if c = '"' ∨ c = '\'' then string c cs
  else if c = '`' then template true cs
  else if c.isDigit then number (c :: cs)
  else if isNameStart c then name (c :: cs)
  else if c = '#' then privateName cs
  else if c = '/' then
    if cs.head? = some '*' then fault (cs.length + 1) "Unterminated multi-line comment"
    else if divides then mark c cs
    else regex cs
  else if c = '.' ∧ cs.head?.any Char.isDigit then pointNumber cs
  else mark c cs

end Lexeme
end ModuleBundler
