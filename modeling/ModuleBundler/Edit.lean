import ModuleBundler.Span
import ModuleBundler.Text.Bytes

/-! Changing a text at several places at once. -/
namespace ModuleBundler
open ModuleBundler.Text

/-- Text that takes the place of a span, or is inserted where the span is empty. -/
structure Edit where
  span : Span
  text : String
  deriving DecidableEq, Repr

/-- Two edits that cannot both be made. -/
structure EditConflict where
  first : Span
  second : Span
  deriving DecidableEq, Repr

/-- A span in words. -/
def Span.describe (s : Span) : String := toString s.start ++ ".." ++ toString s.stop

/-- The conflict in words. -/
def EditConflict.describe (c : EditConflict) : String :=
  "overlapping edits at " ++ c.first.describe ++ " and " ++ c.second.describe

namespace Edit

/-- Edits are made in the order of their spans. -/
def le (a b : Edit) : Bool :=
  a.span.start < b.span.start || (a.span.start == b.span.start && a.span.stop ≤ b.span.stop)

/-- The text from a place on after the edits, which come in the order of their spans; an edit
conflicts if it starts before the place or ends after the text. -/
def applyFrom (cs : List Char) (place : Nat) (before : Option Edit) :
    List Edit → Except EditConflict (List Char)
  | [] => .ok (dropBytes place cs)
  | e :: es =>
    if e.span.start < place ∨ byteSize cs < e.span.stop then
      .error ⟨(before.getD e).span, e.span⟩
    else do
      let rest ← applyFrom cs e.span.stop (some e) es
      return slice place e.span.start cs ++ (e.text.toList ++ rest)

/-- The text after the edits; insertions at one place keep their order. -/
def apply (edits : List Edit) (source : String) : Except EditConflict String :=
  String.ofList <$> applyFrom source.toList 0 none (edits.mergeSort le)

@[simp] theorem applyFrom_nil (cs : List Char) (place : Nat) (before : Option Edit) :
    applyFrom cs place before [] = .ok (dropBytes place cs) := rfl

end Edit
end ModuleBundler
