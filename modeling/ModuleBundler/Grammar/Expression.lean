import ModuleBundler.Grammar.Function
import ModuleBundler.Grammar.Operator

/-! Reading expressions: what an expression starts with, and how the tokens after it go on. -/
namespace ModuleBundler.Grammar
open ModuleBundler.Parser

variable (g : Grammar)

/-- An expression, or three points and an expression. -/
def spreadOrAssignment : Parser Expr := do
  let start ← here
  if ← eatMark .dotDotDot then
    let inner ← g.assignment
    return ⟨start.merge inner.span, .spread inner⟩
  else
    g.assignment

/-- The arguments of a call, with their parentheses. -/
def arguments : Parser (List Expr) := do
  consumeMark .lParen
  let args ← withIn (manyUntil .rParen (do
    let arg ← g.spreadOrAssignment
    separator .rParen
    return arg))
  consumeMark .rParen
  return args

/-- A piece of a template with the substitution after it. -/
def templatePart : Parser (String × Expr) := do
  let text := (← advance).value
  return (text, ← g.enclosed)

/-- A template: its texts and the expressions between them. -/
def template : Parser (List String × List Expr) := do
  if (← get).sees .noSubstitutionTemplate then
    return ([(← advance).value], [])
  else
    let first ← g.templatePart
    let parts ← many (·.sees .templateMiddle) g.templatePart
    if (← get).sees .templateTail then
      let last := (← advance).value
      let parts := first :: parts
      return (parts.map Prod.fst ++ [last], parts.map Prod.snd)
    else
      fail .expectedTemplateClose

/-- An expression in brackets, after the opening one. -/
def indexTail : Parser Expr := do
  let index ← g.enclosed
  consumeMark .rBracket
  return index

/-- What follows a question mark and a point. -/
def optionalTail (left : Expr) : Parser ExprForm := do
  if (← get).seesMark .lParen then return .call true left (← g.arguments)
  else if ← eatMark .lBracket then return .index true left (← g.indexTail)
  else return .member true left (← propertyName)

/-- How a token that binds so tightly goes on with the expression before it. -/
def continueWith (left : Expr) (precedence : Nat) : Continuation → Parser ExprForm
  | .assignment op => do
    let _ ← advance
    return .assignment op left (← g.assignment)
  | .conditional => do
    let _ ← advance
    let yes ← withIn g.assignment
    consumeMark .colon
    return .conditional left yes (← g.assignment)
  | .binary op => do
    let _ ← advance
    return .binary op left (← g.expression (op.rightPrecedence precedence))
  | .increment op => do
    let _ ← advance
    return .unary op left
  | .member => do
    let _ ← advance
    return .member false left (← propertyName)
  | .optional => do
    let _ ← advance
    g.optionalTail left
  | .index => do
    let _ ← advance
    return .index false left (← g.indexTail)
  | .call => return .call false left (← g.arguments)
  | .template => do
    let (texts, exprs) ← g.template
    return .taggedTemplate left texts exprs

/-- The next token goes on with an expression whose operators bind at least so tightly. -/
def goesOn (allowIn : Bool) (precedence : Nat) (c : Cursor) : Bool :=
  c.current.precedence allowIn ≠ 0 && precedence ≤ c.current.precedence allowIn

/-- The expression up to the end of what the next token begins. -/
def extend (left : Expr) : Parser Expr := do
  let c ← get
  match Continuation.ofToken? c.current.kind with
  | some k =>
    let form ← g.continueWith left (c.current.precedence (← read)) k
    return ⟨← spanFrom left.span, form⟩
  | none => return left

/-- An array literal. -/
def arrayLiteral : Parser ExprForm := do
  consumeMark .lBracket
  let elements ← manyUntil .rBracket (do
    if ← eatMark .comma then return none
    let element ← g.spreadOrAssignment
    separator .rBracket
    return some element)
  consumeMark .rBracket
  return .array elements

/-- A property or method of an object literal. -/
def propertyOrMethod : Parser ObjectMember := do
  let m ← modifiers
  let key ← g.propertyKey
  if (← get).seesMark .lParen then
    return .method key m.kind (← g.functionTail none m.isAsync m.isGenerator)
  else if !m.isPlain then
    fail .expectedMethodParams
  else if ← eatMark .colon then
    return .property key (← g.assignment) false
  else
    match key with
    | .name ident => return .property key ⟨ident.span, .ident ident.name⟩ true
    | _ => fail .propertyShorthand

/-- A member of an object literal. -/
def objectMember : Parser ObjectMember := do
  if ← eatMark .dotDotDot then return .spread (← g.assignment) else g.propertyOrMethod

/-- An object literal. -/
def objectLiteral : Parser ExprForm := do
  consumeMark .lBrace
  return .object (← commaList .rBrace g.objectMember)

/-- The body of an arrow function, with its parameters. -/
def arrowBody (params : List Param) (isAsync : Bool) : Parser ExprForm := do
  if (← get).seesMark .lBrace then .arrowBlock isAsync params <$> g.block
  else .arrow isAsync params <$> g.assignment

/-- The arrow and the body of an arrow function, after its parameters. -/
def arrowTail (start : Span) (params : List Param) (isAsync : Bool) : Parser Expr := do
  consumeMark .fatArrow
  let form ← g.arrowBody params isAsync
  return ⟨← spanFrom start, form⟩

/-- Parameters with an arrow after them on the same line; if there are none, nothing is read. -/
def arrowParams : Parser (Option (List Param)) := fun allowIn c =>
  match g.params allowIn c with
  | .ok params c' =>
    if c'.seesMark .fatArrow && !c'.current.newlineBefore then .ok (some params) c'
    else .ok none c
  | .error _ _ => .ok none c

/-- A name as the only parameter of an arrow function. -/
def bareParam : Parser Param := do
  let name ← ident
  return ⟨⟨name.span, .ident name⟩, false⟩

/-- A name that is an expression. -/
def identExpr : Parser Expr := do
  let name ← ident
  return ⟨name.span, .ident name.name⟩

/-- An arrow function, after the word that makes it asynchronous, or else that word as a name. -/
def asyncCallOrArrow (start : Span) : Parser Expr := fun allowIn c =>
  match g.arrowParams allowIn c.next with
  | .ok (some params) c' => g.arrowTail start params true allowIn c'
  | _ => identExpr allowIn c

/-- What starts with a name: an arrow function, a function or the name alone. -/
def identifierExpression : Parser Expr := do
  let c ← get
  let start := c.current.span
  if c.secondKind? == some (.punct .fatArrow) && !c.newlineBeforeSecond then
    g.arrowTail start [← bareParam] false
  else if c.seesWord "async" && !c.newlineBeforeSecond then
    match c.secondKind? with
    | some (.keyword .functionKw) =>
      let fn ← g.function true
      return ⟨← spanFrom start, .functionExpr fn⟩
    | some .identifier =>
      if c.next.secondKind? == some (.punct .fatArrow) then
        let _ ← advance
        g.arrowTail start [← bareParam] true
      else identExpr
    | some (.punct .lParen) => g.asyncCallOrArrow start
    | _ => identExpr
  else identExpr

/-- What starts with a parenthesis: an arrow function or an expression in parentheses. -/
def parenExpression : Parser Expr := do
  let start ← here
  match ← g.arrowParams with
  | some params => g.arrowTail start params false
  | none =>
    consumeMark .lParen
    let inner ← g.enclosed
    consumeMark .rParen
    return ⟨← spanFrom start, .paren inner⟩

/-- How a token goes on with the callee of `new`, whose arguments are not part of it. -/
def calleeForm (callee : Expr) : Parser ExprForm := do
  if ← eatMark .dot then return .member false callee (← propertyName)
  else if ← eatMark .lBracket then return .index false callee (← g.indexTail)
  else
    let (texts, exprs) ← g.template
    return .taggedTemplate callee texts exprs

/-- The callee of `new` with what the next token adds to it. -/
def extendCallee (start : Span) (callee : Expr) : Parser Expr := do
  let form ← g.calleeForm callee
  return ⟨← spanFrom start, form⟩

/-- The next token goes on with the callee of `new`. -/
def calleeGoesOn (c : Cursor) : Bool :=
  c.seesMark .dot || c.seesMark .lBracket || c.sees .noSubstitutionTemplate
    || c.sees .templateHead

/-- The callee of `new`. -/
def newCallee : Parser Expr := do
  let start ← here
  iterate calleeGoesOn (g.extendCallee start) (← g.primary)

/-- The arguments after the callee of `new`, if it has any. -/
def newArguments : Parser (List Expr) := do
  if (← get).seesMark .lParen then g.arguments else return []

/-- What starts with `new`. -/
def newExpression : Parser ExprForm := do
  let start ← here
  consumeKeyword .newKw
  if ← eatMark .dot then
    return .metaProperty ⟨"new", start⟩ (← propertyName)
  else
    let callee ← g.newCallee
    return .newCall callee (← g.newArguments)

/-- What starts with `import` in an expression: not a call. -/
def importExpression : Parser ExprForm := do
  let start ← here
  consumeKeyword .importKw
  if (← get).seesMark .lParen then
    failAt (start.merge (← here)) .dynamicImport
  consumeMark .dot
  return .metaProperty ⟨"import", start⟩ (← propertyName)

/-- The pattern of a regular expression, between its slashes, and its flags. -/
def regexParts (text : String) : String × String :=
  let cs := text.toList
  let flags := (cs.reverse.takeWhile (· != '/')).reverse
  (String.ofList ((cs.drop 1).take (cs.length - flags.length - 2)), String.ofList flags)

/-- An expression of one token. -/
def literal? (t : Token) : Option ExprForm :=
  match t.kind with
  | .numberLiteral => some (.number (Number.value t.value))
  | .bigIntLiteral => some (.bigInt t.value)
  | .stringLiteral => some (.string t.value)
  | .regexLiteral => some (.regExp (regexParts t.value).1 (regexParts t.value).2)
  | .keyword .trueKw => some (.boolean true)
  | .keyword .falseKw => some (.boolean false)
  | .keyword .nullKw => some .null
  | .keyword .thisKw => some .thisExpr
  | .keyword .superKw => some .superExpr
  | _ => none

/-- An expression that starts with a bracket or a keyword. -/
def compound : Parser ExprForm := do
  match (← get).current.kind with
  | .noSubstitutionTemplate | .templateHead =>
    let (texts, exprs) ← g.template
    return .template texts exprs
  | .punct .lBracket => g.arrayLiteral
  | .punct .lBrace => g.objectLiteral
  | .keyword .functionKw => .functionExpr <$> g.function true
  | .keyword .classKw => .classExpr <$> g.classDef true
  | .keyword .newKw => g.newExpression
  | .keyword .importKw => importExpression
  | _ => unexpected .expectedExpression

/-- An expression without operators around it. -/
def primaryExpression : Parser Expr := do
  let t := (← get).current
  match t.kind, literal? t with
  | .identifier, _ => g.identifierExpression
  | .punct .lParen, _ => g.parenExpression
  | _, some form =>
    let _ ← advance
    return ⟨← spanFrom t.span, form⟩
  | _, none =>
    let form ← g.compound
    return ⟨← spanFrom t.span, form⟩

/-- The next token ends an expression that may be left out. -/
def endsHere (c : Cursor) : Bool :=
  c.current.newlineBefore || c.atEnd
    || (c.current.kind matches .punct .semicolon | .punct .rBrace | .punct .rParen
      | .punct .rBracket | .punct .comma | .punct .colon)

/-- What starts with `yield`. -/
def yieldExpression : Parser ExprForm := do
  consumeKeyword .yieldKw
  let delegate ← eatMark .star
  if endsHere (← get) && !delegate then return .yieldExpr none delegate
  else return .yieldExpr (some (← g.assignment)) delegate

/-- An operand with the operators before it. -/
def operand : Parser Expr := do
  let t := (← get).current
  match t.kind, UnaryOp.ofToken? t.kind with
  | _, some op =>
    let _ ← advance
    let form := .unary op (← g.expression 15)
    return ⟨← spanFrom t.span, form⟩
  | .keyword .awaitKw, _ =>
    let _ ← advance
    let form := .awaitExpr (← g.expression 15)
    return ⟨← spanFrom t.span, form⟩
  | .keyword .yieldKw, _ =>
    let form ← g.yieldExpression
    return ⟨← spanFrom t.span, form⟩
  | _, none => g.primaryExpression

/-- An expression whose operators bind at least so tightly. -/
def readExpression (precedence : Nat) : Parser Expr := do
  let first ← g.operand
  iterate (goesOn (← read) precedence) g.extend first

/-- An expression, perhaps with commas. -/
def fullExpression : Parser Expr := commaSequence (g.readExpression 1)

end ModuleBundler.Grammar
