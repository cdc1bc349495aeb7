import ModuleBundler.Span
import ModuleBundler.Token.Kind

/-! What can be wrong with the tokens of a script. -/
namespace ModuleBundler

/-- Why a script is refused. -/
inductive Fault where
  /-- The text is no token. -/
  | badToken (message : String)
  | expectedToken (wanted found : TokenKind)
  | expectedWord (word : String) (found : TokenKind)
  | expectedPattern (found : TokenKind)
  | expectedPropertyName (found : TokenKind)
  | expectedImports (found : TokenKind)
  | expectedDeclaration (found : TokenKind)
  | expectedExpression (found : TokenKind)
  | expectedVarKind
  | expectedFunctionName
  | expectedClassName
  | expectedMethodParams
  | expectedLoopVariable
  | expectedCase
  | expectedTemplateClose
  | patternShorthand
  | propertyShorthand
  | destructuringTarget
  | assignmentTarget
  | dynamicImport
  | nestedExport
  | nestedImport
  | withStatement
  | newlineAfterThrow
  | tryWithoutHandler
  /-- There is no grammar to read the text by. -/
  | noGrammar
  deriving DecidableEq, Repr

/-- The fault in words. -/
def Fault.message : Fault → String
  | badToken message => message
  | expectedToken wanted found => "Expected " ++ wanted.label ++ ", found " ++ found.label
  | expectedWord word found => "Expected '" ++ word ++ "', found " ++ found.label
  | expectedPattern found => "Expected pattern, found " ++ found.label
  | expectedPropertyName found => "Expected property name, found " ++ found.label
  | expectedImports found => "Expected import specifiers, found " ++ found.label
  | expectedDeclaration found => "Expected declaration, found " ++ found.label
  | expectedExpression found => "Unexpected token in expression: " ++ found.label
  | expectedVarKind => "Expected var, let, or const"
  | expectedFunctionName => "Expected function name"
  | expectedClassName => "Expected class name"
  | expectedMethodParams => "Expected '(' after method name"
  | expectedLoopVariable => "Expected loop variable"
  | expectedCase => "Expected case or default in switch statement"
  | expectedTemplateClose => "Expected '\x7d' to close template substitution"
  | patternShorthand => "Invalid object pattern shorthand"
  | propertyShorthand => "Invalid property shorthand"
  | destructuringTarget => "Invalid destructuring target"
  | assignmentTarget => "Invalid assignment target"
  | dynamicImport => "dynamic import() is not supported"
  | nestedExport => "export declarations may only appear at the top level of a module"
  | nestedImport => "import declarations may only appear at the top level of a module"
  | withStatement => "with statements are not supported"
  | newlineAfterThrow => "Illegal newline after throw"
  | tryWithoutHandler => "Try statement must have catch or finally clause"
  | noGrammar => "Nothing can be read"

/-- A fault in its place. -/
structure ParseError where
  fault : Fault
  span : Span
  deriving DecidableEq, Repr

/-- The fault in words, with its place. -/
def ParseError.describe (e : ParseError) : String :=
  e.fault.message ++ " at " ++ toString e.span.start ++ ".." ++ toString e.span.stop

/-- Two steps succeed if the first one does and the second one does with its result. -/
theorem Except.bind_eq_ok {ε α β : Type} {x : Except ε α} {f : α → Except ε β} {b : β} :
    (x >>= f) = .ok b ↔ ∃ v, x = .ok v ∧ f v = .ok b := by
  cases x <;> simp [bind, Except.bind]

/-- Two steps fail if one of them does. -/
theorem Except.bind_eq_error {ε α β : Type} {x : Except ε α} {f : α → Except ε β} {e : ε} :
    x >>= f = .error e ↔ x = .error e ∨ ∃ a, x = .ok a ∧ f a = .error e := by
  cases x <;> simp [bind, Except.bind]

end ModuleBundler
