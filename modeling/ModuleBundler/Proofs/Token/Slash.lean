import Mathlib.Data.List.Chain
import ModuleBundler.Proofs.Token.Scan
import ModuleBundler.Proofs.Token.Start

/-! What comes of a slash: after a token that ends an expression it opens no regular expression. -/
namespace ModuleBundler
open ModuleBundler.Text

namespace Lexeme

/-- A regular expression, or the opening of one that has no end. -/
def IsRegex (l : Lexeme) : Prop :=
  l.kind = .regexLiteral ∨ l.kind = .error ∧ l.value = "Unterminated regular expression"

variable {c : Char} {cs : List Char} {divides : Bool}

/-- Other faults are told apart by the first letters of their messages. -/
theorem not_isRegex_fault {size : Nat} {message : String}
    (h : message.toList.take 3 ≠ ['U', 'n', 't'] ∨
      message.toList.drop 13 ≠ "regular expression".toList) :
    ¬ (fault size message).IsRegex := by
  rintro (hk | ⟨-, rfl⟩)
  · cases hk
  · revert h
    decide

theorem not_isRegex_of_kind {l : Lexeme} (h : l.kind ≠ .regexLiteral) (he : l.kind ≠ .error) :
    ¬ l.IsRegex := by
  rintro (hk | ⟨hk, -⟩)
  · exact h hk
  · exact he hk

theorem not_isRegex_string (quote : Char) : ¬ (string quote cs).IsRegex := by
  simp only [string]
  split
  · apply not_isRegex_of_kind <;> rintro ⟨⟩
  · exact not_isRegex_fault (.inr (by decide))

theorem not_isRegex_template (opening : Bool) : ¬ (template opening cs).IsRegex := by
  simp only [template]
  split
  · cases opening <;> apply not_isRegex_of_kind <;> rintro ⟨⟩
  · cases opening <;> apply not_isRegex_of_kind <;> rintro ⟨⟩
  · exact not_isRegex_fault (.inr (by decide))

theorem not_isRegex_number : ¬ (number cs).IsRegex := by
  rcases kind_number cs with hk | hk <;>
    exact not_isRegex_of_kind (by rw [hk]; rintro ⟨⟩) (by rw [hk]; rintro ⟨⟩)

theorem not_isRegex_name : ¬ (name cs).IsRegex := by
  simp only [name]
  split
  · exact not_isRegex_fault (.inl (by decide))
  split
  · split <;> apply not_isRegex_of_kind <;> rintro ⟨⟩
  · apply not_isRegex_of_kind <;> rintro ⟨⟩

theorem not_isRegex_privateName : ¬ (privateName cs).IsRegex := by
  simp only [privateName]
  split
  · exact not_isRegex_fault (.inl (by decide))
  · apply not_isRegex_of_kind <;> rintro ⟨⟩

theorem not_isRegex_mark : ¬ (mark c cs).IsRegex := by
  unfold mark
  split
  · apply not_isRegex_of_kind <;> rintro ⟨⟩
  · exact not_isRegex_fault (.inl (by simp))

/-- Only a slash that does not divide opens a regular expression. -/
theorem isRegex_plain (h : (plain divides c cs).IsRegex) : c = '/' ∧ divides = false := by
  unfold plain at h
  split at h
  · exact absurd h (not_isRegex_string c)
  split at h
  · exact absurd h (not_isRegex_template true)
  split at h
  · exact absurd h not_isRegex_number
  split at h
  · exact absurd h not_isRegex_name
  split at h
  · exact absurd h not_isRegex_privateName
  split at h
  · next hc =>
    split at h
    · exact absurd h (not_isRegex_fault (.inr (by decide)))
    split at h
    · exact absurd h not_isRegex_mark
    · next hd => exact ⟨hc, by simpa using hd⟩
  split at h
  · exact absurd h (not_isRegex_of_kind (by rintro ⟨⟩) (by rintro ⟨⟩))
  · exact absurd h not_isRegex_mark

end Lexeme

/-- A regular expression, or the opening of one that has no end. -/
def Token.IsRegex (t : Token) : Prop :=
  t.kind = .regexLiteral ∨ t.kind = .error ∧ t.value = "Unterminated regular expression"

namespace Scanner

variable {s : Scanner} {gap rest : List Char} {c : Char}

/-- A token is no regular expression where the one before it ends an expression. -/
theorem isRegex_token (h : (s.token gap c rest).IsRegex) :
    s.previous.any TokenKind.endsExpression = false := by
  have h : (s.lexeme c rest).IsRegex := h
  unfold lexeme at h
  split at h
  · exact absurd h (Lexeme.not_isRegex_template false)
  · exact (Lexeme.isRegex_plain h).2

theorem isChain_tokens (s : Scanner) (cs : List Char) :
    (∀ t ∈ (s.tokens cs).head?, t.IsRegex → s.previous.any TokenKind.endsExpression = false) ∧
      (s.tokens cs).IsChain fun t u => u.IsRegex → t.kind.endsExpression = false := by
  induction s, cs using text_induction with
  | nil s cs h =>
    rw [tokens_nil h]
    refine ⟨fun t ht => ?_, .singleton _⟩
    obtain rfl := Option.some.inj ht
    simp [Token.IsRegex]
  | cons s gap c rest h ih =>
    rw [tokens_cons h]
    refine ⟨fun t ht => ?_, List.isChain_cons.mpr ⟨fun u hu hr => ?_, ih.2⟩⟩
    · obtain rfl := Option.some.inj ht
      exact isRegex_token
    · simpa [after] using ih.1 u hu hr

end Scanner

/-- In every text, no regular expression follows a token that ends an expression: a name, a
literal, a closing bracket or one of the words that stand for values. -/
theorem isChain_tokenize (source : String) :
    (tokenize source).IsChain fun t u => u.IsRegex → t.kind.endsExpression = false :=
  (Scanner.isChain_tokens _ _).2

/-- Any other word is followed by a regular expression, also where it names a property. -/
example : (tokenize "a.return /b/c").map Token.kind =
    [.identifier, .punct .dot, .keyword .returnKw, .regexLiteral, .eof] := by decide +kernel

end ModuleBundler
