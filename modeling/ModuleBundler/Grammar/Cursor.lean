import ModuleBundler.Grammar.Error
import ModuleBundler.Token.Stream
import ModuleBundler.Tree.Basic

/-! Reading along a list of tokens that ends with an end mark. -/
namespace ModuleBundler

/-- A place between two tokens: the one just read, the next one and those after it. At the
beginning, where nothing has been read, the next one stands for both. -/
structure Cursor where
  previous : Token
  current : Token
  ahead : List Token

namespace Cursor

/-- The end mark for tokens without one, where the last of them ends. -/
def endMark (tokens : List Token) : Token :=
  let stop := (tokens.getLast?.map fun t => t.span.stop).getD 0
  ⟨.eof, ⟨stop, stop⟩, "", false⟩

/-- The beginning of a list of tokens, which gets an end mark if it lacks one. -/
def ofTokens (tokens : List Token) : Cursor :=
  match tokens with
  | [] => ⟨endMark [], endMark [], []⟩
  | t :: ts =>
    if (tokens.getLast?.map Token.kind) = some .eof then ⟨t, t, ts⟩
    else ⟨t, t, ts ++ [endMark tokens]⟩

/-- Nothing but the end mark is left. -/
def atEnd (c : Cursor) : Bool := c.current.kind == .eof

/-- The next token is of a kind, which is not the end mark. -/
def sees (c : Cursor) (kind : TokenKind) : Bool := !c.atEnd && c.current.kind == kind

/-- The next token is a certain operator or delimiter. -/
def seesMark (c : Cursor) (p : Punctuator) : Bool := c.sees (.punct p)

/-- The next token is a certain reserved word. -/
def seesKeyword (c : Cursor) (k : Keyword) : Bool := c.sees (.keyword k)

/-- The next token is a name with this text. -/
def seesWord (c : Cursor) (word : String) : Bool :=
  c.current.kind == .identifier && c.current.value == word

/-- The kind of the token after the next one. -/
def secondKind? (c : Cursor) : Option TokenKind := c.ahead.head?.map Token.kind

/-- A line ends before the token after the next one. -/
def newlineBeforeSecond (c : Cursor) : Bool := c.ahead.head?.any Token.newlineBefore

/-- The place after the next token; there is none after the end mark. -/
def next (c : Cursor) : Cursor :=
  match c.ahead with
  | [] => c
  | t :: ts => if c.atEnd then c else ⟨c.current, t, ts⟩

@[simp] theorem next_ahead_length (c : Cursor) (h : c.atEnd = false) :
    c.next.ahead.length = c.ahead.length - 1 := by
  unfold next; split <;> simp_all

end Cursor

/-- A reader of tokens. It is told whether `in` is an operator, which it is not in the head of
a loop, and ends with a value or an error, either at a place. -/
abbrev Parser (α : Type) := ReaderT Bool (EStateM ParseError Cursor) α

namespace Parser

/-- Reads with `in` as an operator. -/
def withIn (p : Parser α) : Parser α := fun _ => p true

/-- Reads with `in` as the mark of a loop. -/
def withoutIn (p : Parser α) : Parser α := fun _ => p false

/-- Fails at a span. -/
def failAt (span : Span) (fault : Fault) : Parser α := throw ⟨fault, span⟩

/-- Fails at the next token; if that is none, what is wrong with its text goes first. -/
def fail (fault : Fault) : Parser α := do
  let t := (← get).current
  failAt t.span (if t.kind = .error then .badToken t.value else fault)

/-- Fails with a fault that names the next token. -/
def unexpected (fault : TokenKind → Fault) : Parser α := do
  fail (fault (← get).current.kind)

/-- Reads the next token, whatever it is. -/
def advance : Parser Token := do
  let c ← get
  set c.next
  return c.next.previous

/-- Reads the next token if it is of a kind. -/
def eat (kind : TokenKind) : Parser Bool := do
  if (← get).sees kind then
    let _ ← advance
    return true
  else
    return false

/-- Reads the next token if it is a certain operator or delimiter. -/
def eatMark (p : Punctuator) : Parser Bool := eat (.punct p)

/-- Reads the next token if it is a certain reserved word. -/
def eatKeyword (k : Keyword) : Parser Bool := eat (.keyword k)

/-- Reads the next token if it is a name with this text. -/
def eatWord (word : String) : Parser Bool := do
  if (← get).seesWord word then
    let _ ← advance
    return true
  else
    return false

/-- Reads what follows a token of a kind, if that is the next one. -/
def after (kind : TokenKind) (p : Parser α) : Parser (Option α) := do
  if ← eat kind then return some (← p) else return none

/-- Reads what follows a word, if that is the next token. -/
def afterWord (word : String) (p : Parser α) : Parser (Option α) := do
  if ← eatWord word then return some (← p) else return none

/-- Reads a token of a kind. -/
def consume (kind : TokenKind) : Parser Token := do
  if (← get).sees kind then advance else unexpected (.expectedToken kind)

/-- Reads a certain operator or delimiter. -/
def consumeMark (p : Punctuator) : Parser Unit := do
  let _ ← consume (.punct p)

/-- Reads a certain reserved word. -/
def consumeKeyword (k : Keyword) : Parser Unit := do
  let _ ← consume (.keyword k)

/-- Reads a name with this text. -/
def consumeWord (word : String) : Parser Unit := do
  if !(← eatWord word) then unexpected (.expectedWord word)

/-- A semicolon may be left out. -/
def semicolon : Parser Unit := do
  let _ ← eatMark .semicolon

/-- The span of the next token. -/
def here : Parser Span := return (← get).current.span

/-- The span from a place to the token just read. -/
def spanFrom (start : Span) : Parser Span := return start.merge (← get).previous.span

/-- Repeats a step as long as a test on the place holds and the step moves on. -/
def iterate (continues : Cursor → Bool) (step : α → Parser α) (a : α) : Parser α :=
  fun allowIn c =>
    if continues c then
      match step a allowIn c with
      | .error e c' => .error e c'
      | .ok b c' =>
        if c'.ahead.length < c.ahead.length then iterate continues step b allowIn c'
        else .ok b c'
    else .ok a c
  termination_by _ c => c.ahead.length

/-- Reads items as long as a test on the place holds. -/
def many (continues : Cursor → Bool) (item : Parser α) : Parser (List α) := do
  let items ← iterate continues (fun items => return (← item) :: items) []
  return items.reverse

/-- Reads items up to a closing mark, which is not read. -/
def manyUntil (close : Punctuator) (item : Parser α) : Parser (List α) :=
  many (fun c => !c.seesMark close && !c.atEnd) item

/-- Reads the comma after an item of a list, unless the closing mark follows. -/
def separator (close : Punctuator) : Parser Unit := do
  if !(← get).seesMark close then consumeMark .comma

/-- Reads items with commas between them, and the closing mark. -/
def commaList (close : Punctuator) (item : Parser α) : Parser (List α) := do
  let items ← manyUntil close (do
    let a ← item
    separator close
    return a)
  consumeMark close
  return items

/-- Reads a name. -/
def ident : Parser Ident := do
  let t ← consume .identifier
  return ⟨t.value, t.span⟩

/-- Reads a name, reserved word or private name, as after a point. -/
def propertyName : Parser Ident := do
  if (← get).current.kind.isName then
    let t ← advance
    return ⟨t.value, t.span⟩
  else
    unexpected .expectedPropertyName

end Parser
end ModuleBundler
