import ModuleBundler.Proofs.Grammar.Bracket
import ModuleBundler.Proofs.Tree.Bare

/-! Reading two lists of tokens side by side that differ only in their spans and in answered
texts: those that stand first between parentheses and have an answer for their span. -/
namespace ModuleBundler

variable {a : Answers}

/-- A token, the one before it, and what takes its place: a token like it in another place, or the
string that answers it. -/
inductive Token.Twin (a : Answers) (t previous t' : Token) : Prop where
  | same (kind : t'.kind = t.kind) (value : t'.value = t.value)
      (newline : t'.newlineBefore = t.newlineBefore)
      (unanswered : t.kind.isText = true → a t.span = none)
  | answered (argument : previous.isArgument t = true) (answer : a t.span = some t'.value)
      (kind : t'.kind = .stringLiteral) (newline : t'.newlineBefore = t.newlineBefore)

/-- Tokens, after another one, and what takes their place. -/
inductive Twins (a : Answers) : Token → List Token → List Token → Prop where
  | nil {previous : Token} : Twins a previous [] []
  | cons {previous t t' : Token} {ts ts' : List Token} :
      t.Twin a previous t' → Twins a t ts ts' → Twins a previous (t :: ts) (t' :: ts')

theorem Twins.length {previous : Token} {ts ts' : List Token} (h : Twins a previous ts ts') :
    ts'.length = ts.length := by
  induction h with
  | nil => rfl
  | cons _ _ ih => simp [ih]

/-- Two places with twins after them. -/
structure Cursor.Twin (a : Answers) (c d : Cursor) : Prop where
  tokens : Twins a c.previous (c.current :: c.ahead) (d.current :: d.ahead)
  ended : c.Ended

namespace Token.Twin
variable {previous t t' : Token}

theorem newlineBefore (h : t.Twin a previous t') : t'.newlineBefore = t.newlineBefore := by
  cases h with
  | same _ _ newline => exact newline
  | answered _ _ _ newline => exact newline

/-- The kind stays, unless both tokens are texts and a parenthesis stands before them. -/
theorem kinds (h : t.Twin a previous t') : t'.kind = t.kind ∧ t'.value = t.value ∨
    previous.kind = .punct .lParen ∧ t.kind.isText = true ∧ t'.kind = .stringLiteral := by
  cases h with
  | same kind value => exact .inl ⟨kind, value⟩
  | answered argument _ kind =>
    simp only [isArgument, Bool.and_eq_true, beq_iff_eq] at argument
    exact .inr ⟨argument.1, argument.2, kind⟩

theorem kind_eq_iff (h : t.Twin a previous t') {kind : TokenKind} (hk : kind.isText = false) :
    t'.kind = kind ↔ t.kind = kind := by
  rcases h.kinds with ⟨hs, -⟩ | ⟨-, ht, hs⟩
  · rw [hs]
  · rw [hs]
    constructor
    · rintro rfl
      cases hk
    · rintro rfl
      rw [hk] at ht
      cases ht

end Token.Twin

namespace Cursor.Twin
variable {c d : Cursor}

theorem current (h : c.Twin a d) : c.current.Twin a c.previous d.current := by
  cases h.tokens with
  | cons h _ => exact h

theorem ahead (h : c.Twin a d) : Twins a c.current c.ahead d.ahead := by
  cases h.tokens with
  | cons _ h => exact h

theorem ahead_length (h : c.Twin a d) : d.ahead.length = c.ahead.length := h.ahead.length

theorem kind_eq_iff (h : c.Twin a d) {kind : TokenKind} (hk : kind.isText = false) :
    d.current.kind = kind ↔ c.current.kind = kind := h.current.kind_eq_iff hk

theorem atEnd (h : c.Twin a d) : d.atEnd = c.atEnd := by
  rw [Cursor.atEnd, Cursor.atEnd, Bool.eq_iff_iff, beq_iff_eq, beq_iff_eq, h.kind_eq_iff rfl]

theorem next (h : c.Twin a d) (hc : c.atEnd = false) :
    c.next.Twin a d.next ∧ c.next.previous = c.current ∧ d.next.previous = d.current := by
  have hd : d.atEnd = false := by rw [h.atEnd, hc]
  have he := (Cursor.moves_next h.ended hc).ended h.ended
  have ht := h.ahead
  obtain ⟨previous, current, ahead⟩ := c
  obtain ⟨previous', current', ahead'⟩ := d
  cases ht with
  | nil =>
    have hk : current.kind = .eof := by simpa [Ended] using h.ended
    simp [Cursor.atEnd, hk] at hc
  | cons hu hs =>
    rw [Cursor.next, hc] at he ⊢
    rw [Cursor.next, hd]
    exact ⟨⟨.cons hu hs, he⟩, rfl, rfl⟩

theorem second_eq (h : c.Twin a d) (hk : c.current.kind ≠ .punct .lParen) :
    d.secondKind? = c.secondKind? := by
  have ht := h.ahead
  obtain ⟨previous, current, ahead⟩ := c
  obtain ⟨previous', current', ahead'⟩ := d
  rw [secondKind?, secondKind?]
  cases ht with
  | nil => rfl
  | cons hu _ => simpa using (hu.kinds.resolve_right fun hs => hk hs.1).1

theorem newlineBeforeSecond (h : c.Twin a d) :
    d.newlineBeforeSecond = c.newlineBeforeSecond := by
  have ht := h.ahead
  obtain ⟨previous, current, ahead⟩ := c
  obtain ⟨previous', current', ahead'⟩ := d
  rw [Cursor.newlineBeforeSecond, Cursor.newlineBeforeSecond]
  cases ht with
  | nil => rfl
  | cons hu _ => simpa using hu.newlineBefore

end Cursor.Twin

end ModuleBundler
