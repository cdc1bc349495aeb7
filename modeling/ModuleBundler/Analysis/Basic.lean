import ModuleBundler.Edit
import ModuleBundler.Text.Quoted

/-! What a module asks for, and how its text changes once the answers are known. -/
namespace ModuleBundler

/-- A module that is asked for, with the span of the specifier and its quotes. -/
structure Request where
  specifier : String
  span : Span
  deriving DecidableEq, Repr

/-- A part of a new text. -/
inductive Piece where
  | text (text : String)
  /-- The name of the module that answers a request, in quotes. -/
  | id (index : Nat)
  deriving DecidableEq, Repr

/-- New text for a span. -/
structure Replacement where
  span : Span
  pieces : List Piece
  deriving DecidableEq, Repr

/-- All that a module asks for, and all that changes in its text. -/
structure Analysis where
  requests : List Request
  replacements : List Replacement
  deriving DecidableEq, Repr

/-- The text of a piece, once the requests are answered; an answer that is missing is empty. -/
def Piece.render (ids : List String) : Piece → String
  | text s => s
  | id index => Text.quote (ids.getD index "")

/-- The edit that a replacement stands for, once the requests are answered. -/
def Replacement.edit (ids : List String) (r : Replacement) : Edit :=
  ⟨r.span, String.join (r.pieces.map (Piece.render ids))⟩

/-- The edits of a module, once its requests are answered. -/
def Analysis.edits (a : Analysis) (ids : List String) : List Edit := a.replacements.map (·.edit ids)

@[simp] theorem Replacement.edit_span (ids : List String) (r : Replacement) :
    (r.edit ids).span = r.span := rfl

@[simp] theorem Analysis.edits_length (a : Analysis) (ids : List String) :
    (a.edits ids).length = a.replacements.length := by simp [Analysis.edits]

end ModuleBundler
