import ModuleBundler.Analysis.Lowering
import ModuleBundler.Grammar.Module
import ModuleBundler.Tree.Visit

/-! The analysis of a module: its requests and replacements, in the order of a walk through it. -/
namespace ModuleBundler
open ModuleBundler.Text

/-- A call of the name `require`. -/
inductive RequireCall where
  /-- The only argument stands for a fixed text. -/
  | static (specifier : String) (span : Span)
  /-- Any other call, with its span. -/
  | dynamic (span : Span)
  deriving DecidableEq, Repr

/-- The call of `require` that an expression is, if it is one. -/
def Expr.requireCall? (e : Expr) : Option RequireCall :=
  match e.form with
  | .call false callee args =>
    if callee.identName? = some "require" then
      match args with
      | [arg] =>
        match arg.staticString? with
        | some specifier => some (.static specifier arg.span)
        | none => some (.dynamic e.span)
      | _ => some (.dynamic e.span)
    else none
  | _ => none

namespace Analysis

/-- An analysis that is under way. -/
structure Draft where
  requests : List Request
  replacements : List Replacement
  hoisted : List String
  trailer : List String
  /-- The first call of `require` that names no module. -/
  dynamic : Option Span

namespace Draft

/-- Nothing has been seen yet. -/
def empty : Draft := ⟨[], [], [], [], none⟩

/-- The draft with what a part of the module adds. -/
def add (d : Draft) (l : Lowering) : Draft :=
  { d with
    requests := d.requests ++ l.request.toList
    replacements := d.replacements ++ l.replacements
    hoisted := d.hoisted ++ l.hoisted
    trailer := d.trailer ++ l.trailer }

/-- The draft after a part of the module; `source` is the text of the module. -/
def visit (source : List Char) (d : Draft) : Visit → Draft
  | .item item => d.add (.ofItem source d.requests.length item)
  | .expr expr =>
    match expr.requireCall? with
    | some (.static specifier span) =>
      d.add ⟨some ⟨specifier, span⟩, [⟨span, [.id d.requests.length]⟩], [], []⟩
    | some (.dynamic span) => { d with dynamic := d.dynamic.or (some span) }
    | none => d
  | _ => d

end Draft

/-- Statements as pieces with blanks between them. -/
def statementPieces (statements : List String) : List Piece :=
  (statements.map Piece.text).intersperse (.text " ")

/-- The statements that come before all others in a module. -/
def hoistedReplacement (hoisted : List String) : List Replacement :=
  if hoisted.isEmpty then [] else [⟨⟨0, 0⟩, statementPieces hoisted ++ [.text "\n"]⟩]

/-- The first line of a script that names its interpreter goes. -/
def hashbangReplacement (source : List Char) : List Replacement :=
  match source with
  | '#' :: '!' :: _ => [⟨⟨0, byteSize (hashbang source)⟩, []⟩]
  | _ => []

/-- The statements that come after all others in a module. -/
def trailerReplacement (source : List Char) (trailer : List String) : List Replacement :=
  if trailer.isEmpty then []
  else [⟨⟨byteSize source, byteSize source⟩, .text "\n" :: statementPieces trailer⟩]

/-- The draft of a whole module. -/
def draft (program : Program) (source : List Char) : Draft :=
  let marker := if program.hasModuleSyntax then [Lowering.moduleMarker] else []
  program.visits.foldl (Draft.visit source) { Draft.empty with hoisted := marker }

/-- The analysis of a module, or the span of its first call of `require` that names no module. -/
def ofProgram (program : Program) (source : String) : Except Span Analysis :=
  let cs := source.toList
  let d := draft program cs
  match d.dynamic with
  | some span => .error span
  | none =>
    .ok ⟨d.requests, d.replacements ++ hoistedReplacement d.hoisted ++ hashbangReplacement cs
      ++ trailerReplacement cs d.trailer⟩

end Analysis
end ModuleBundler
