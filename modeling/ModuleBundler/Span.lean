/-! Stretches of a source text, in bytes of its UTF-8 form. -/
namespace ModuleBundler

/-- The bytes from `start` up to, and without, `stop`. -/
structure Span where
  start : Nat
  stop : Nat
  deriving DecidableEq, Repr, Inhabited

namespace Span

/-- The least span around two spans. -/
def merge (a b : Span) : Span := ⟨min a.start b.start, max a.stop b.stop⟩

/-- The number of bytes of a span. -/
def size (a : Span) : Nat := a.stop - a.start

/-- A span without bytes marks a place between two characters. -/
def isEmpty (a : Span) : Bool := a.start == a.stop

@[simp] theorem merge_start (a b : Span) : (a.merge b).start = min a.start b.start := rfl
@[simp] theorem merge_stop (a b : Span) : (a.merge b).stop = max a.stop b.stop := rfl

theorem merge_comm (a b : Span) : a.merge b = b.merge a := by
  simp [merge, Nat.min_comm, Nat.max_comm]

theorem merge_assoc (a b c : Span) : (a.merge b).merge c = a.merge (b.merge c) := by
  simp [merge, Nat.min_assoc, Nat.max_assoc]

@[simp] theorem merge_self (a : Span) : a.merge a = a := by simp [merge]

end Span
end ModuleBundler
