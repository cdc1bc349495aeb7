import ModuleBundler.Analysis.Module
import ModuleBundler.Proofs.Grammar.Outcome

/-! The tokens that a reader passes: they open and close brackets like a stack, and some of them
are texts that stand first between parentheses. -/
namespace ModuleBundler

/-- A bracket that is open. -/
inductive Bracket where
  | paren
  | square
  | curly
  /-- A substitution in a template. -/
  | template
  deriving DecidableEq, Repr

namespace Bracket

/-- Closes a bracket, which has to be the innermost one. -/
def close (b : Bracket) : List Bracket → Option (List Bracket)
  | [] => none
  | b' :: s => if b' = b then some s else none

/-- The open brackets after a token, the innermost first; the end mark and what is no token have
no place between brackets. -/
def step (s : List Bracket) : TokenKind → Option (List Bracket)
  | .punct .lParen => some (paren :: s)
  | .punct .lBracket => some (square :: s)
  | .punct .lBrace => some (curly :: s)
  | .templateHead => some (template :: s)
  | .punct .rParen => close paren s
  | .punct .rBracket => close square s
  | .punct .rBrace => close curly s
  | .templateMiddle => (close template s).map (template :: ·)
  | .templateTail => close template s
  | .eof | .error => none
  | _ => some s

/-- The open brackets after some tokens. -/
def run (s : List Bracket) (ts : List Token) : Option (List Bracket) :=
  ts.foldlM (fun s t => step s t.kind) s

@[simp] theorem run_nil (s : List Bracket) : run s [] = some s := rfl

@[simp] theorem run_singleton (s : List Bracket) (t : Token) : run s [t] = step s t.kind := by
  simp [run]

theorem run_append (s : List Bracket) (u v : List Token) :
    run s (u ++ v) = (run s u).bind (run · v) := by
  simp [run, List.foldlM_append]

/-- Brackets further out do not matter for a token that has its place between brackets. -/
theorem step_append {s s' : List Bracket} {kind : TokenKind} (h : step s kind = some s')
    (outer : List Bracket) : step (s ++ outer) kind = some (s' ++ outer) := by
  have hclose {b : Bracket} {s s' : List Bracket} (h : close b s = some s') :
      close b (s ++ outer) = some (s' ++ outer) := by
    cases s with
    | nil => cases h
    | cons b' s =>
      simp only [close, Option.ite_none_right_eq_some, Option.some.injEq] at h
      obtain ⟨rfl, rfl⟩ := h
      simp [close]
  unfold step at h ⊢
  split at h
  iterate 4
    · cases h
      rfl
  iterate 3 exact hclose h
  · obtain ⟨s₁, hs, rfl⟩ := Option.map_eq_some_iff.mp h
    exact Option.map_eq_some_iff.mpr ⟨s₁ ++ outer, hclose hs, rfl⟩
  · exact hclose h
  · cases h
  · cases h
  · cases h
    rfl

theorem run_outer {s s' : List Bracket} {ts : List Token} (h : run s ts = some s')
    (outer : List Bracket) : run (s ++ outer) ts = some (s' ++ outer) := by
  induction ts generalizing s with
  | nil =>
    cases h
    rfl
  | cons t ts ih =>
    simp only [run, List.foldlM_cons, Option.bind_eq_bind, Option.bind_eq_some_iff] at h ih ⊢
    obtain ⟨s₁, hs, hr⟩ := h
    exact ⟨s₁ ++ outer, step_append hs outer, ih hr⟩

@[simp] theorem close_cons (b : Bracket) (s : List Bracket) : close b (b :: s) = some s := by
  simp [close]

@[simp] theorem step_rParen (s : List Bracket) :
    step (paren :: s) (.punct .rParen) = some s := close_cons paren s

@[simp] theorem step_rBracket (s : List Bracket) :
    step (square :: s) (.punct .rBracket) = some s := close_cons square s

@[simp] theorem step_rBrace (s : List Bracket) :
    step (curly :: s) (.punct .rBrace) = some s := close_cons curly s

@[simp] theorem step_templateMiddle (s : List Bracket) :
    step (template :: s) .templateMiddle = some (template :: s) := by simp [step]

@[simp] theorem step_templateTail (s : List Bracket) :
    step (template :: s) .templateTail = some s := close_cons template s

/-- The token neither opens nor closes a bracket. -/
def Neutral (kind : TokenKind) : Prop := ∀ s, step s kind = some s

theorem Neutral.of_isName {kind : TokenKind} (h : kind.isName = true) : Neutral kind := by
  intro s
  cases kind <;> simp_all [TokenKind.isName, step]

end Bracket

/-- The token is a fixed text. -/
def TokenKind.isText : TokenKind → Bool
  | .stringLiteral | .noSubstitutionTemplate => true
  | _ => false

namespace TokenKind

theorem endsExpression_of_isText {kind : TokenKind} (h : kind.isText = true) :
    kind.endsExpression = true := by
  cases kind with
  | stringLiteral => rfl
  | noSubstitutionTemplate => rfl
  | _ => cases h

theorem ne_error_of_isText {kind : TokenKind} (h : kind.isText = true) : kind ≠ .error := by
  rintro rfl
  cases h

end TokenKind

/-- The token may be the first argument of a call: a text after a parenthesis. -/
def Token.isArgument (previous t : Token) : Bool :=
  previous.kind == .punct .lParen && t.kind.isText

/-- The number of arguments with a span among some tokens, which come after a given one. -/
def argumentsAt (sp : Span) : Token → List Token → Nat
  | _, [] => 0
  | previous, t :: ts =>
    (if previous.isArgument t ∧ t.span = sp then 1 else 0) + argumentsAt sp t ts

theorem argumentsAt_append (sp : Span) (previous : Token) (u v : List Token) :
    argumentsAt sp previous (u ++ v)
      = argumentsAt sp previous u + argumentsAt sp (u.getLast?.getD previous) v := by
  induction u generalizing previous with
  | nil => simp [argumentsAt]
  | cons t u ih =>
    rw [List.cons_append, argumentsAt, argumentsAt, ih, List.getLast?_cons]
    simp [Nat.add_assoc]

namespace Cursor

/-- The last token of all is an end mark. -/
def Ended (c : Cursor) : Prop := ((c.current :: c.ahead).getLast?.map Token.kind) = some .eof

/-- A list of tokens is read up to an end mark, which it gets if it has none. -/
theorem Ended.ofTokens (tokens : List Token) : (Cursor.ofTokens tokens).Ended := by
  cases tokens with
  | nil => rfl
  | cons t ts =>
    rw [Cursor.ofTokens]
    split
    · assumption
    · rw [Ended, ← List.cons_append, List.getLast?_append]
      rfl

/-- The tokens from one place to another. -/
structure Moves (c : Cursor) (w : List Token) (c' : Cursor) : Prop where
  tokens : c.current :: c.ahead = w ++ c'.current :: c'.ahead
  previous : c'.previous = w.getLast?.getD c.previous

namespace Moves
variable {c c₁ c₂ : Cursor} {u v : List Token}

theorem refl (c : Cursor) : Moves c [] c := ⟨rfl, rfl⟩

theorem trans (h : Moves c u c₁) (k : Moves c₁ v c₂) : Moves c (u ++ v) c₂ := by
  constructor
  · rw [h.tokens, k.tokens, List.append_assoc]
  · rw [k.previous, h.previous, List.getLast?_append]
    cases v.getLast? <;> rfl

theorem ended (h : Moves c u c₁) (hc : c.Ended) : c₁.Ended := by
  unfold Ended at hc ⊢
  rw [h.tokens, List.getLast?_append] at hc
  rw [← hc]
  simp [List.getLast?_cons]

theorem length (h : Moves c u c₁) : c.ahead.length = u.length + c₁.ahead.length := by
  have := congrArg List.length h.tokens
  simp at this
  omega

theorem unique (h : Moves c u c₁) (k : Moves c v c₁) : u = v :=
  List.append_cancel_right (h.tokens.symm.trans k.tokens)

end Moves

theorem moves_next {c : Cursor} (hc : c.Ended) (h : c.atEnd = false) :
    Moves c [c.current] c.next := by
  obtain ⟨previous, current, ahead⟩ := c
  cases ahead with
  | nil => simp_all [Ended, atEnd]
  | cons t ts =>
    have h : (⟨previous, current, t :: ts⟩ : Cursor).next = ⟨current, t, ts⟩ := by
      simp [next, h]
    rw [h]
    exact ⟨rfl, rfl⟩

/-- From one place another one is reached without passing an end mark. -/
def Reaches (c c' : Cursor) : Prop := ∃ w, c.Moves w c' ∧ ∀ t ∈ w, t.kind ≠ .eof

namespace Reaches
variable {c c₁ c₂ : Cursor}

theorem refl (c : Cursor) : c.Reaches c := ⟨[], .refl c, by simp⟩

theorem trans (h : c.Reaches c₁) (k : c₁.Reaches c₂) : c.Reaches c₂ := by
  obtain ⟨u, hu, hnu⟩ := h
  obtain ⟨v, hv, hnv⟩ := k
  exact ⟨u ++ v, hu.trans hv, List.forall_mem_append.mpr ⟨hnu, hnv⟩⟩

theorem ended (h : c.Reaches c₁) (hc : c.Ended) : c₁.Ended := by
  obtain ⟨w, hw, -⟩ := h
  exact hw.ended hc

theorem ahead (h : c.Reaches c₁) : c₁.ahead.length ≤ c.ahead.length := by
  obtain ⟨w, hw, -⟩ := h
  exact hw.length ▸ Nat.le_add_left ..

theorem next (hc : c.Ended) (h : c.atEnd = false) : c.Reaches c.next := by
  refine ⟨[c.current], moves_next hc h, ?_⟩
  simpa [atEnd] using h

end Reaches

theorem previous_next {c : Cursor} (hc : c.Ended) (h : c.atEnd = false) :
    c.next.previous = c.current := by
  rw [(moves_next hc h).previous]
  rfl

theorem atEnd_of_sees {c : Cursor} {kind : TokenKind} (h : c.sees kind = true) :
    c.atEnd = false := by
  simp only [sees, Bool.and_eq_true, Bool.not_eq_true'] at h
  exact h.1

theorem kind_of_sees {c : Cursor} {kind : TokenKind} (h : c.sees kind = true) :
    c.current.kind = kind := by
  simp only [sees, Bool.and_eq_true, beq_iff_eq] at h
  exact h.2

theorem kind_of_seesWord {c : Cursor} {word : String} (h : c.seesWord word = true) :
    c.current.kind = .identifier := by
  simp only [seesWord, Bool.and_eq_true, beq_iff_eq] at h
  exact h.1

end Cursor

end ModuleBundler
