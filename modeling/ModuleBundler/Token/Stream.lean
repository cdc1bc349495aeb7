import ModuleBundler.Span
import ModuleBundler.Text.Bytes
import ModuleBundler.Token.Lexeme

/-! The tokens of a source text, one after the other up to the end of the text. -/
namespace ModuleBundler
open ModuleBundler.Text

/-- A token in its place. -/
structure Token where
  kind : TokenKind
  span : Span
  /-- The text of a name, word or mark, what a string or template piece denotes, the digits of
  a number, the whole of a regular expression, or what is wrong. -/
  value : String
  /-- A line ends between the token before and this one. -/
  newlineBefore : Bool
  deriving DecidableEq, Repr

/-- What an open brace stands for. -/
inductive Brace where
  | block
  | substitution
  deriving DecidableEq, Repr

/-- What reading the next token depends on besides the text. -/
structure Scanner where
  /-- The number of bytes already read. -/
  offset : Nat
  /-- The kind of the token before. -/
  previous : Option TokenKind
  /-- The braces that are still open, the innermost first. -/
  braces : List Brace
  deriving DecidableEq, Repr

namespace Scanner

/-- The token that starts with a character. -/
def lexeme (s : Scanner) (c : Char) (cs : List Char) : Lexeme :=
  if c = '}' ∧ s.braces.head? = some .substitution then Lexeme.template false cs
  else Lexeme.plain (s.previous.any TokenKind.endsExpression) c cs

/-- A brace opens a block, closes the innermost brace, and a template piece that ends in a
substitution opens one. -/
def bracesAfter (s : Scanner) (c : Char) (kind : TokenKind) : List Brace :=
  let left := if c = '}' then s.braces.tail else s.braces
  match kind with
  | .punct .lBrace => .block :: left
  | .templateHead | .templateMiddle => .substitution :: left
  | _ => left

/-- A line ends in the blanks and comments before a token; a comment that is never closed
counts among them. -/
def newlineIn (gap : List Char) (rest : List Char) : Bool :=
  gap.any isLineTerminator || (Lexeme.opensComment rest && rest.any isLineTerminator)

/-- The token that starts with a character, after blanks and comments. -/
def token (s : Scanner) (gap : List Char) (c : Char) (rest : List Char) : Token :=
  let lexeme := s.lexeme c rest
  let start := s.offset + byteSize gap
  let stop := start + byteSize (c :: rest.take (lexeme.size - 1))
  ⟨lexeme.kind, ⟨start, stop⟩, lexeme.value, newlineIn gap (c :: rest)⟩

/-- What reading goes on with after a token that started with a character. -/
def after (s : Scanner) (t : Token) (c : Char) : Scanner :=
  ⟨t.span.stop, some t.kind, s.bracesAfter c t.kind⟩

/-- The tokens of the text that is still to be read. -/
def tokens (s : Scanner) (cs : List Char) : List Token :=
  let gap := Lexeme.gap cs
  match h : cs.drop gap.length with
  | [] =>
    let stop := s.offset + byteSize gap
    [⟨.eof, ⟨stop, stop⟩, "", gap.any isLineTerminator⟩]
  | c :: rest =>
    let t := s.token gap c rest
    t :: tokens (s.after t c) (rest.drop ((s.lexeme c rest).size - 1))
  termination_by cs.length
  decreasing_by
    have := congrArg List.length h
    simp at this ⊢
    omega

end Scanner

/-- A first line that starts with a number sign and an exclamation mark is skipped. -/
def hashbang (cs : List Char) : List Char :=
  if ['#', '!'].isPrefixOf cs then cs.takeWhile (· != '\n') else []

/-- The tokens of a source text; the last one, and no other, marks the end. -/
def tokenize (source : String) : List Token :=
  let cs := source.toList
  let skipped := hashbang cs
  Scanner.tokens ⟨byteSize skipped, none, []⟩ (cs.drop skipped.length)

end ModuleBundler
