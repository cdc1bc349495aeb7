import ModuleBundler.Analysis.Basic
import ModuleBundler.Text.Character
import ModuleBundler.Tree.Names

/-! Import and export declarations as calls of `require` and assignments to `exports`. -/
namespace ModuleBundler
open ModuleBundler.Text

/-- What a part of a module adds to its analysis: perhaps a request, replacements that may refer
to it, and statements for the beginning and the end of the module. -/
structure Lowering where
  request : Option Request
  replacements : List Replacement
  hoisted : List String
  trailer : List String

namespace Lowering

/-- Marks a module that was written with declarations. -/
def moduleMarker : String :=
  "Object.defineProperty(exports, \"__esModule\", \x7b value: true \x7d);"

/-- Takes the default export of a module, or all of one that was written without declarations. -/
def defaultOf : String :=
  "(function (m) \x7b return m && m.__esModule ? m.default : m; \x7d)"

/-- Exports what another module exports, except for its default and for names that are taken. -/
def exportStar : String :=
  "(function (m) \x7b for (var k in m) if (k !== \"default\" && !(k in exports)) "
    ++ "exports[k] = m[k]; \x7d)"

/-- The text of a source between two byte offsets. -/
def sourceText (source : List Char) (s : Span) : List Char := slice s.start s.stop source

/-- The text of a span without white space at its end. -/
def trimmedText (source : List Char) (s : Span) : List Char :=
  ((sourceText source s).reverse.dropWhile isWhiteSpace).reverse

/-- A semicolon, unless the text of the span ends in one or in a brace. -/
def terminator (source : List Char) (s : Span) : String :=
  match (trimmedText source s).getLast? with
  | some ';' | some '}' => ""
  | _ => ";"

/-- New text for a whole declaration, with as many line feeds as it had. -/
def replaceItem (source : List Char) (s : Span) (pieces : List Piece) : Replacement :=
  let feeds := (sourceText source s).filter (· == '\n')
  ⟨s, if feeds.isEmpty then pieces else pieces ++ [.text (String.ofList feeds)]⟩

/-- A call of `require` for the request at an index. -/
def requireCall (index : Nat) : List Piece := [.text "require(", .id index, .text ")"]

/-- The names of an import list as properties that are taken apart. -/
def namedBinding? : ImportSpecifier → Option String
  | .named imported newName => some (imported.name ++ ": " ++ (newName.getD imported).name)
  | .default _ | .namespace _ => none

/-- The declaration of a name that stands for a whole module or its default. -/
def wholeBinding (index : Nat) : ImportSpecifier → List Piece
  | .default name =>
    .text ("var " ++ name.name ++ " = " ++ defaultOf ++ "(") :: (requireCall index ++ [.text "); "])
  | .namespace name => .text ("var " ++ name.name ++ " = ") :: (requireCall index ++ [.text "; "])
  | .named .. => []

/-- The declaration of the names of an import list, if it has any. -/
def namedBindings (index : Nat) (specifiers : List ImportSpecifier) : List Piece :=
  match specifiers.filterMap namedBinding? with
  | [] => []
  | names =>
    .text ("var \x7b " ++ ", ".intercalate names ++ " \x7d = ")
      :: (requireCall index ++ [.text ";"])

/-- Pieces without a blank at the end. -/
def trimLast (pieces : List Piece) : List Piece :=
  match pieces.getLast? with
  | some (.text s) =>
    pieces.dropLast ++ [.text (String.ofList (s.toList.reverse.dropWhile isWhiteSpace).reverse)]
  | _ => pieces

/-- The pieces that take the place of an import declaration. -/
def importPieces (index : Nat) (specifiers : List ImportSpecifier) : List Piece :=
  if specifiers.isEmpty then requireCall index ++ [.text ";"]
  else trimLast (specifiers.flatMap (wholeBinding index) ++ namedBindings index specifiers)

/-- Nothing but replacements. -/
def ofReplacements (replacements : List Replacement) : Lowering := ⟨none, replacements, [], []⟩

/-- A request of its own and new text for a whole declaration. -/
def ofSource (source : List Char) (s : Span) (m : ModuleSource) (pieces : List Piece) : Lowering :=
  ⟨some ⟨m.specifier, m.span⟩, [replaceItem source s pieces], [], []⟩

/-- An assignment to an exported name, or several. -/
def assignment (exported value : String) : String := "exports." ++ exported ++ " = " ++ value ++ ";"

/-- A declaration without its export, and the assignment of what it declares: a function may be
used before it is declared, so it is exported first of all. -/
def exportBinding (source : List Char) (s start : Span) (decl : Decl) (text : String) : Lowering :=
  let removed : Replacement := ⟨⟨s.start, start.start⟩, []⟩
  match decl with
  | .function _ => ⟨none, [removed], [text], []⟩
  | _ =>
    ofReplacements [removed, ⟨⟨s.stop, s.stop⟩, [.text (terminator source s ++ "\n" ++ text)]⟩]

/-- The pieces that take the place of a list of names exported from another module. -/
def exportFromPieces (index : Nat) (specifiers : List ExportSpecifier) : List Piece :=
  List.flatten <| List.intersperse [.text " "] <| specifiers.map fun e =>
    [.text ("exports." ++ e.exportedName ++ " = require("), .id index,
     .text (")." ++ e.name.name ++ ";")]

/-- An export declaration; `index` is that of its request. -/
def ofExport (source : List Char) (s : Span) (index : Nat) : ExportDecl → Lowering
  | .defaultExpr expr =>
    let ending := terminator source s
    ofReplacements <| ⟨⟨s.start, expr.span.start⟩, [.text "exports.default = "]⟩ ::
      if ending.isEmpty then [] else [⟨⟨s.stop, s.stop⟩, [.text ending]⟩]
  | .defaultDecl start decl =>
    match decl.boundNames.head? with
    | some name => exportBinding source s start decl (assignment "default" name)
    | none =>
      ofReplacements [⟨⟨s.start, start.start⟩, [.text "exports.default = "]⟩,
        ⟨⟨s.stop, s.stop⟩, [.text ";"]⟩]
  | .decl start decl =>
    match decl.boundNames with
    | [] => ofReplacements [⟨⟨s.start, start.start⟩, []⟩]
    | names =>
      exportBinding source s start decl (" ".intercalate (names.map fun n => assignment n n))
  | .named specifiers none =>
    ⟨none, [replaceItem source s []], [],
      specifiers.map fun e => assignment e.exportedName e.name.name⟩
  | .named specifiers (some m) => ofSource source s m (exportFromPieces index specifiers)
  | .all m none =>
    ofSource source s m [.text (exportStar ++ "(require("), .id index, .text "));"]
  | .all m (some name) =>
    ofSource source s m [.text ("exports." ++ name.name ++ " = require("), .id index, .text ");"]

/-- A top-level item; `index` is that of its request. -/
def ofItem (source : List Char) (index : Nat) (item : Item) : Lowering :=
  match item.form with
  | .importDecl decl =>
    ofSource source item.span decl.source (importPieces index decl.specifiers)
  | .exportDecl decl => ofExport source item.span index decl
  | .stmt _ => ofReplacements []

end Lowering
end ModuleBundler
