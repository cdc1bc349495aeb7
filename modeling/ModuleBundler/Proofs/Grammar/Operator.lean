import ModuleBundler.Grammar.Expression
import ModuleBundler.Proofs.Grammar.Outcome

/-! The table of how tightly tokens bind and the table of how they go on with the expression before
them: where the first lets a loop go on, the second has a case. -/
namespace ModuleBundler

namespace Token
variable {t : Token} {allowIn : Bool}

/-- Every token that binds to the expression before it has a way to go on with it. -/
theorem ofToken?_of_precedence (h : t.precedence allowIn ≠ 0) :
    ∃ k, Continuation.ofToken? t.kind = some k := by
  unfold precedence at h
  split at h
  all_goals first
    | exact absurd rfl h
    | next hk => exact ⟨_, by rw [hk]; rfl⟩

theorem precedence_eq_zero (h : Continuation.ofToken? t.kind = none) :
    t.precedence allowIn = 0 := by
  by_cases hp : t.precedence allowIn = 0
  · exact hp
  · obtain ⟨k, hk⟩ := ofToken?_of_precedence hp
    cases h.symm.trans hk

theorem looser_of_none (h : Continuation.ofToken? t.kind = none) (bound : Nat) :
    t.precedence allowIn ≠ 0 → t.precedence allowIn < bound :=
  fun hp => absurd (precedence_eq_zero h) hp

/-- Only `in` binds one way and not the other. -/
theorem precedence_false (h : t.kind ≠ .keyword .inKw) :
    t.precedence false = t.precedence true := by
  unfold precedence
  split <;> first | rfl | contradiction

theorem precedence_isIn (h : t.kind = .keyword .inKw) : t.precedence false = 0 := by
  rw [precedence, h]
  rfl

/-- Operators between operands bind less tightly than those after one. -/
theorem precedence_binary {op : BinaryOp}
    (h : Continuation.ofToken? t.kind = some (.binary op)) : t.precedence allowIn ≤ 14 := by
  unfold precedence
  split
  all_goals first
    | decide
    | (split <;> decide)
    | next hk =>
      rw [hk] at h
      cases h

end Token

theorem Continuation.kind_of_isIn {kind : TokenKind} (h : ofToken? kind = some (.binary .isIn)) :
    kind = .keyword .inKw := by
  unfold ofToken? at h
  split at h
  iterate 9 cases h
  split at h
  · cases h
  · next hop =>
    cases h
    unfold BinaryOp.ofToken? at hop
    split at hop <;> cases hop
    rfl
  · cases h

namespace Grammar
variable {b : Bool} {c : Cursor}

/-- How an expression goes on is decided by the token after it. -/
theorem extend_apply (g : Grammar) (left : Expr) (b : Bool) (c : Cursor) :
    g.extend left b c = ((Continuation.ofToken? c.current.kind).elim (pure left) fun k => do
      let form ← g.continueWith left (c.current.precedence b) k
      return ⟨← Parser.spanFrom left.span, form⟩ : Parser Expr) b c := by
  have hget : (get : Parser Cursor) b c = .ok c c := rfl
  have hread : (read : Parser Bool) b c = .ok b c := rfl
  simp only [Grammar.extend, Parser.bind_apply, hget]
  cases Continuation.ofToken? c.current.kind with
  | none => rfl
  | some k => simp only [Parser.bind_apply, hread, Option.elim_some]

theorem goesOn_iff {precedence : Nat} : goesOn b precedence c = true ↔
    c.current.precedence b ≠ 0 ∧ precedence ≤ c.current.precedence b := by
  simp [goesOn]

/-- A loop that goes on with an expression finds a way to do so. -/
theorem ofToken?_of_goesOn {precedence : Nat} (h : goesOn b precedence c = true) :
    ∃ k, Continuation.ofToken? c.current.kind = some k :=
  Token.ofToken?_of_precedence (goesOn_iff.mp h).1

end Grammar

end ModuleBundler
