import ModuleBundler.Grammar.Basic

/-! Reading patterns and parameters. -/
namespace ModuleBundler.Grammar
open ModuleBundler.Parser

variable (g : Grammar)

/-- A value after an equals sign becomes the default of the pattern before it. -/
def defaultFor (p : Pattern) : Parser Pattern := do
  if ← eatMark .eq then
    let value ← g.assignment
    return ⟨p.span.merge value.span, .withDefault p value⟩
  else
    return p

/-- A pattern and its default, if it has one. -/
def patternWithDefault : Parser Pattern := do g.defaultFor (← g.pattern)

/-- The rest of a pattern, after three points. -/
def restPattern : Parser (Option Pattern) := after (.punct .dotDotDot) g.pattern

/-- The parts of a pattern go on up to its closing mark or its rest. -/
def partsGoOn (close : Punctuator) (c : Cursor) : Bool :=
  !c.seesMark close && !c.atEnd && !c.seesMark .dotDotDot

/-- A position of an array pattern, or a hole with its comma. -/
def arrayPosition : Parser (Option Pattern) := do
  if ← eatMark .comma then return none
  let p ← g.patternWithDefault
  separator .rBracket
  return some p

/-- An array pattern. -/
def arrayPattern : Parser PatternForm := do
  consumeMark .lBracket
  let elements ← many (partsGoOn .rBracket) g.arrayPosition
  let rest ← g.restPattern
  consumeMark .rBracket
  return .array elements rest

/-- A key that stands for its own value is a name, and no private one. -/
def shorthandName? : PropertyKey → Option Ident
  | .name ident => if ident.name.startsWith "#" then none else some ident
  | _ => none

/-- A property of an object pattern, after its key. -/
def keyedPattern (key : PropertyKey) : Parser PatternProperty := do
  if ← eatMark .colon then
    return ⟨key, ← g.patternWithDefault, false⟩
  else
    match shorthandName? key with
    | some ident => return ⟨key, ← g.defaultFor ⟨ident.span, .ident ident⟩, true⟩
    | none => fail .patternShorthand

/-- A property of an object pattern. -/
def patternProperty : Parser PatternProperty := do
  let key ← g.propertyKey
  let property ← g.keyedPattern key
  separator .rBrace
  return property

/-- An object pattern. -/
def objectPattern : Parser PatternForm := do
  consumeMark .lBrace
  let properties ← many (partsGoOn .rBrace) g.patternProperty
  let rest ← g.restPattern
  consumeMark .rBrace
  return .object properties rest

/-- What a pattern is made of. -/
def patternForm : Parser PatternForm := do
  match (← get).current.kind with
  | .punct .lBracket => g.arrayPattern
  | .punct .lBrace => g.objectPattern
  | .identifier => .ident <$> ident
  | _ => unexpected .expectedPattern

/-- A pattern. -/
def readPattern : Parser Pattern := do
  let start ← here
  let form ← g.patternForm
  return ⟨← spanFrom start, form⟩

/-- A parameter. -/
def param : Parser Param := do
  if ← eatMark .dotDotDot then return ⟨← g.pattern, true⟩
  else return ⟨← g.patternWithDefault, false⟩

/-- The parameters of a function, with their parentheses. -/
def params : Parser (List Param) := do
  consumeMark .lParen
  commaList .rParen g.param

end ModuleBundler.Grammar
