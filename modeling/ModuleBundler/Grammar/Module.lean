import ModuleBundler.Grammar.Statement

/-! Reading whole modules; after an error reading goes on at the next statement. -/
namespace ModuleBundler.Grammar
open ModuleBundler.Parser

/-- The readers of parts whose own parts are read by a given grammar. -/
def step (g : Grammar) : Grammar :=
  ⟨g.readExpression, g.primaryExpression, g.readPattern, g.readStatement⟩

/-- The grammar of scripts whose parts are nested no deeper than a bound. -/
def nested : Nat → Grammar
  | 0 => empty
  | depth + 1 => step (nested depth)

variable (g : Grammar)

/-- The module that a declaration names. -/
def moduleSource : Parser ModuleSource := do
  let t ← consume .stringLiteral
  return ⟨t.value, t.span⟩

/-- The module that a declaration names after a word, which ends the declaration. -/
def fromSource : Parser ModuleSource := do
  consumeWord "from"
  let source ← moduleSource
  semicolon
  return source

/-- A name in the list of an import. -/
def namedImport : Parser ImportSpecifier := do
  let imported ← propertyName
  let newName ← afterWord "as" ident
  return .named imported newName

/-- What an import binds besides the default. -/
def importList : Parser (List ImportSpecifier) := do
  if ← eatMark .star then
    consumeWord "as"
    return [.namespace (← ident)]
  else if ← eatMark .lBrace then
    commaList .rBrace namedImport
  else
    unexpected .expectedImports

/-- What an import binds after the default. -/
def otherImports : Parser (List ImportSpecifier) := do
  if ← eatMark .comma then importList else return []

/-- An import with names. -/
def importNames : Parser ImportDecl := do
  if (← get).sees .identifier then
    let default := ImportSpecifier.default (← ident)
    let others ← otherImports
    return ⟨default :: others, ← fromSource⟩
  else
    let specifiers ← importList
    return ⟨specifiers, ← fromSource⟩

/-- An import declaration. -/
def importDecl : Parser ImportDecl := do
  consumeKeyword .importKw
  if (← get).sees .stringLiteral then
    let source ← moduleSource
    semicolon
    return ⟨[], source⟩
  else
    importNames

/-- A declaration with its span. -/
def declaration (nameOptional : Bool) : Parser (Span × Decl) := do
  let start ← here
  match ← g.declaration? nameOptional with
  | some decl => return (← spanFrom start, decl)
  | none => unexpected .expectedDeclaration

/-- A default export, after its word. -/
def exportDefault : Parser ExportDecl := do
  let c ← get
  if c.seesKeyword .functionKw || c.seesKeyword .classKw || c.seesAsyncFunction then
    let (span, decl) ← g.declaration true
    return .defaultDecl span decl
  else
    let expr ← g.assignment
    semicolon
    return .defaultExpr expr

/-- An export of all names of a module, after its star. -/
def exportAll : Parser ExportDecl := do
  let newName ← afterWord "as" propertyName
  return .all (← fromSource) newName

/-- A name in the list of an export. -/
def namedExport : Parser ExportSpecifier := do
  let name ← propertyName
  let newName ← afterWord "as" propertyName
  return ⟨name, newName⟩

/-- An export of names, after its opening brace. -/
def exportNames : Parser ExportDecl := do
  let specifiers ← commaList .rBrace namedExport
  let source ← afterWord "from" moduleSource
  semicolon
  return .named specifiers source

/-- An export declaration. -/
def exportDecl : Parser ExportDecl := do
  consumeKeyword .exportKw
  if ← eatKeyword .defaultKw then g.exportDefault
  else if ← eatMark .star then exportAll
  else if ← eatMark .lBrace then exportNames
  else
    let (span, decl) ← g.declaration false
    return .decl span decl

/-- What a top-level item is. -/
def itemForm : Parser ItemForm := do
  let c ← get
  if seesImport c then .importDecl <$> importDecl
  else if c.current.kind == .keyword .exportKw then .exportDecl <$> g.exportDecl
  else .stmt <$> g.readStatement

/-- A top-level item. -/
def item : Parser Item := do
  let start ← here
  let form ← g.itemForm
  return ⟨← spanFrom start, form⟩

end Grammar

/-- The token may start a statement after an error. -/
def TokenKind.resumes : TokenKind → Bool
  | .keyword k => (k matches .classKw | .functionKw | .letKw | .constKw | .varKw | .forKw | .ifKw
      | .whileKw | .returnKw | .importKw | .exportKw)
  | _ => false

namespace Cursor

/-- Reading may go on here after an error. -/
def mayResume (c : Cursor) : Bool :=
  c.previous.kind == .punct .semicolon || c.current.kind.resumes

/-- The first place, from here on, at which reading may go on after an error. -/
def skip (previous current : Token) : List Token → Cursor
  | [] => ⟨previous, current, []⟩
  | t :: ts =>
    let c : Cursor := ⟨previous, current, t :: ts⟩
    if c.atEnd || c.mayResume then c else skip current t ts

/-- Where reading goes on after an error: at least one token further on. -/
def afterError (c : Cursor) : Cursor := skip c.next.previous c.next.current c.next.ahead

end Cursor

/-- What has been read of a module: its items and the errors between them. -/
structure Parsed where
  items : List Item
  errors : List ParseError
  /-- The end of the last token. -/
  stop : Nat

namespace Grammar

/-- Reads items up to the end of the tokens. -/
def items (g : Grammar) (c : Cursor) : Parsed :=
  if c.atEnd then ⟨[], [], c.current.span.stop⟩
  else
    match g.item true c with
    | .ok item c' =>
      if c'.ahead.length < c.ahead.length then
        let rest := items g c'
        { rest with items := item :: rest.items }
      else ⟨[item], [], c'.current.span.stop⟩
    | .error e c' =>
      if c'.afterError.ahead.length < c.ahead.length then
        let rest := items g c'.afterError
        { rest with errors := e :: rest.errors }
      else ⟨[], [e], c'.current.span.stop⟩
  termination_by c.ahead.length

end Grammar

/-- Reads tokens as a module; each error stands for one place that cannot be read. -/
def Program.ofTokens (tokens : List Token) : Except (List ParseError) Program :=
  let c := Cursor.ofTokens tokens
  let parsed := (Grammar.nested (c.ahead.length + 1)).items c
  if parsed.errors.isEmpty then .ok ⟨⟨0, parsed.stop⟩, parsed.items⟩
  else .error parsed.errors

/-- Reads a source text as a module. -/
def Program.parse (source : String) : Except (List ParseError) Program :=
  Program.ofTokens (tokenize source)

end ModuleBundler
