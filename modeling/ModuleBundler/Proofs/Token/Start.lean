import ModuleBundler.Proofs.Grammar.Bracket
import ModuleBundler.Token.Stream

/-! What the first character of a token says about its kind. -/
namespace ModuleBundler
open ModuleBundler.Text

namespace Lexeme
variable {c : Char} {cs : List Char} {l : Lexeme}

/-- What a character and the text behind it are read as where no closing brace goes on with a
template: the kinds of token that the character can start. -/
inductive Reads (c : Char) (cs : List Char) (l : Lexeme) : Prop
  | fault (kind : l.kind = .error)
  | string (quote : c = '"' ∨ c = '\'') (kind : l.kind = .stringLiteral)
  | template (quote : c = '`') (kind : l.kind = .noSubstitutionTemplate ∨ l.kind = .templateHead)
  | number (digit : c.isDigit = true) (read : l = number (c :: cs))
      (kind : l.kind = .numberLiteral ∨ l.kind = .bigIntLiteral)
  | pointNumber (read : l = pointNumber cs)
  | name (start : isNameStart c = true)
      (kind : l.kind = .identifier ∨ ∃ word, l.kind = .keyword word)
  | privateName (kind : l.kind = .privateName)
  | regex (kind : l.kind = .regexLiteral)
  | mark (p : Punctuator) (fits : p.chars.isPrefixOf (c :: cs) = true)
      (read : l = verbatim (.punct p) p.chars)

theorem number_cases (cs : List Char) : number cs = decimalNumber cs ∨
    ∃ mark radix r, radix? mark = some radix ∧ number cs = radixNumber radix mark r := by
  unfold number
  split
  · next mark r =>
    split
    · next radix hr => exact .inr ⟨mark, radix, r, hr, rfl⟩
    · exact .inl rfl
  · exact .inl rfl

theorem kind_number (cs : List Char) :
    (number cs).kind = .numberLiteral ∨ (number cs).kind = .bigIntLiteral := by
  rcases number_cases cs with hn | ⟨mark, radix, r, -, hn⟩ <;> rw [hn]
  · simp only [decimalNumber]
    split
    · exact .inr rfl
    · exact .inl rfl
  · simp only [radixNumber]
    split
    · exact .inr rfl
    · exact .inl rfl

theorem reads_string (h : c = '"' ∨ c = '\'') : Reads c cs (string c cs) := by
  simp only [string]
  split
  · exact .string h rfl
  · exact .fault rfl

theorem reads_template (h : c = '`') : Reads c cs (template true cs) := by
  simp only [template]
  split
  · exact .template h (.inl rfl)
  · exact .template h (.inr rfl)
  · exact .fault rfl

theorem reads_name (h : isNameStart c = true) : Reads c cs (name (c :: cs)) := by
  simp only [name]
  split
  · exact .fault rfl
  split
  · next word _ =>
    split
    · exact .name h (.inl rfl)
    · exact .name h (.inr ⟨word, rfl⟩)
  · exact .name h (.inl rfl)

theorem reads_privateName : Reads c cs (privateName cs) := by
  simp only [privateName]
  split
  · exact .fault rfl
  · exact .privateName rfl

theorem reads_regex : Reads c cs (regex cs) := by
  unfold regex
  split
  · exact .regex rfl
  · exact .fault rfl

theorem reads_mark : Reads c cs (mark c cs) := by
  unfold mark
  split
  · next p hp =>
    have hfits := List.find?_some hp
    simp only [fits, Bool.and_eq_true] at hfits
    exact .mark p hfits.1 rfl
  · exact .fault rfl

theorem reads_plain (divides : Bool) (c : Char) (cs : List Char) :
    Reads c cs (plain divides c cs) := by
  unfold plain
  split
  · next hq => exact reads_string hq
  split
  · next ht => exact reads_template ht
  split
  · next hd => exact .number hd rfl (kind_number _)
  split
  · next hn => exact reads_name hn
  split
  · exact reads_privateName
  split
  · split
    · exact .fault rfl
    split
    · exact reads_mark
    · exact reads_regex
  split
  · exact .pointNumber rfl
  · exact reads_mark

/-- A piece of a template behind a substitution. -/
theorem template_goesOn (cs : List Char) : (template false cs).kind = .templateTail ∨
    (template false cs).kind = .templateMiddle ∨ (template false cs).kind = .error := by
  simp only [template]
  split
  · exact .inl rfl
  · exact .inr (.inl rfl)
  · exact .inr (.inr rfl)

/-- What the first character of a token says about its kind. -/
structure Starts (c : Char) (cs : List Char) (l : Lexeme) : Prop where
  text : l.kind.isText = true → c = '"' ∨ c = '\'' ∨ c = '`'
  mark : ∀ p, l.kind = .punct p →
    p.chars.isPrefixOf (c :: cs) = true ∧ l = verbatim (.punct p) p.chars

/-- Neither quotes nor marks start a token of any other kind. -/
theorem Starts.of_kind (ht : l.kind.isText = false) (hp : ∀ p, l.kind ≠ .punct p) :
    Starts c cs l where
  text h := by
    rw [ht] at h
    cases h
  mark p h := absurd h (hp p)

theorem Starts.of_text (h : c = '"' ∨ c = '\'' ∨ c = '`') (hp : ∀ p, l.kind ≠ .punct p) :
    Starts c cs l where
  text _ := h
  mark p hk := absurd hk (hp p)

theorem Reads.starts (h : Reads c cs l) : Starts c cs l := by
  cases h with
  | string hq hk => exact .of_text (hq.imp_right .inl) (by simp [hk])
  | template ht hk => exact .of_text (.inr (.inr ht)) (by rcases hk with hk | hk <;> simp [hk])
  | mark p hp hl =>
    subst hl
    refine ⟨by rintro ⟨⟩, fun q hq => ?_⟩
    obtain rfl := TokenKind.punct.inj hq
    exact ⟨hp, rfl⟩
  | pointNumber hl =>
    subst hl
    exact .of_kind rfl (by rintro _ ⟨⟩)
  | fault hk | privateName hk | regex hk => exact .of_kind (by rw [hk]; rfl) (by simp [hk])
  | number _ _ hk =>
    rcases hk with hk | hk <;> exact .of_kind (by rw [hk]; rfl) (by simp [hk])
  | name _ hk =>
    rcases hk with hk | ⟨word, hk⟩ <;> exact .of_kind (by rw [hk]; rfl) (by simp [hk])

/-- A character that no other mark and no word, number or text starts with is a mark of its own. -/
theorem plain_mark {p : Punctuator} {c : Char} (hc : p.chars = [c])
    (hf : ∀ q : Punctuator, q.chars.head? = some c → q = p)
    (hs : c ∉ ['"', '\'', '`', '#', '/', '.']) (hw : c.isDigit = false ∧ isNameStart c = false)
    (divides : Bool) (cs : List Char) : plain divides c cs = verbatim (.punct p) [c] := by
  have hfits : fits (c :: cs) = fun q => q == p := by
    funext q
    by_cases hq : q = p
    · have hd : (p == .questionDot) = false := by
        rw [beq_eq_false_iff_ne]
        rintro rfl
        cases hc
      rw [hq, fits, hc, hd]
      simp
    · have hn : q.chars.isPrefixOf (c :: cs) = false := by
        have hne : q.chars ≠ [] := by cases q <;> decide
        obtain ⟨d, ds, hd⟩ := List.exists_cons_of_ne_nil hne
        have hdc : d ≠ c := fun h => hq (hf q (by rw [hd, h]; rfl))
        simp [hd, List.isPrefixOf, hdc]
      simp [fits, hn, hq]
  have hp : punctuator? (c :: cs) = some p := by
    rw [punctuator?, hfits]
    cases p <;> decide
  simp only [List.mem_cons, List.not_mem_nil, or_false, not_or] at hs
  simp only [plain, hs, hw, mark, hp, or_self, if_false, Bool.false_eq_true, false_and]
  rw [hc]

end Lexeme

namespace Scanner

theorem starts_lexeme (s : Scanner) (c : Char) (cs : List Char) :
    Lexeme.Starts c cs (s.lexeme c cs) := by
  unfold lexeme
  split
  · rcases Lexeme.template_goesOn cs with hk | hk | hk <;>
      exact .of_kind (by rw [hk]; rfl) (by simp [hk])
  · exact (Lexeme.reads_plain _ c cs).starts

theorem lexeme_lParen (s : Scanner) (cs : List Char) :
    s.lexeme '(' cs = Lexeme.verbatim (.punct .lParen) ['('] := by
  have hf (q : Punctuator) : q.chars.head? = some '(' → q = .lParen := by
    cases q <;> decide
  rw [lexeme, if_neg (by simp)]
  exact Lexeme.plain_mark rfl hf (by decide) (by decide) _ _

end Scanner
end ModuleBundler
