import ModuleBundler.Proofs.Token.Spelling

/-! Words with single blanks between them, or with a mark behind them that goes on with no token,
are the tokens of their text. -/
namespace ModuleBundler
open ModuleBundler.Text

theorem Text.stops_space : Stops ' ' where
  name := by decide
  backslash := by decide
  brace := by decide
  mark p := by cases p <;> decide

theorem Text.stops_semicolon : Stops ';' where
  name := by decide
  backslash := by decide
  brace := by decide
  mark p := by cases p <;> decide

/-- The end of a text, or a character that goes on with no token before more of it. -/
def Parted (x : List Char) : Prop := x = [] ∨ ∃ m y, Stops m ∧ x = m :: y

theorem Parted.blank (x : List Char) : Parted (' ' :: x) := .inr ⟨' ', x, stops_space, rfl⟩

/-- A word stands before the end of its text or before a blank and the words after it. -/
theorem intercalate_cons (w : List Char) (ws : List (List Char)) :
    ∃ g, (g = [] ∨ g = [' ']) ∧ Parted (g ++ [' '].intercalate ws)
      ∧ [' '].intercalate (w :: ws) = w ++ (g ++ [' '].intercalate ws) := by
  cases ws with
  | nil => exact ⟨[], .inl rfl, .inl rfl, by simp⟩
  | cons v ws => exact ⟨[' '], .inr rfl, .blank _, by simp⟩

/-- A scanner reads a word as one token. -/
structure Scanner.Reads (s : Scanner) (c : Char) (w : List Char) : Prop where
  gap : Lexeme.gap (c :: w) = []
  kind : (s.lexeme c w).kind ≠ .error
  size : (s.lexeme c w).size - 1 = w.length

namespace Scanner
variable {s : Scanner} {c : Char} {w x g : List Char}

/-- What follows a word at some distance does not change it. -/
theorem Reads.before (h : s.Reads c w) (hx : Parted x) :
    Lexeme.gap (c :: (w ++ x)) = [] ∧ s.lexeme c (w ++ x) = s.lexeme c w := by
  have hg : Lexeme.gap ([] ++ c :: w) = [] := h.gap
  rcases hx with rfl | ⟨m, y, hm, rfl⟩
  · rw [List.append_nil]
    exact ⟨hg, rfl⟩
  · exact ⟨(gap_cut hm hg h.kind).1, (lexeme_cut hm h.kind).same⟩

/-- No token starts as a first line that is skipped. -/
theorem lexeme_hashbang (s : Scanner) (v : List Char) :
    (s.lexeme '#' ('!' :: v)).kind = .error := by
  have hn : isNameStart '#' = false := by decide
  have hp : Escape.nameParts ('!' :: v) = [] := by
    rw [Escape.nameParts_cons fun _ h => absurd h (by decide), if_neg (by decide)]
  rw [lexeme, if_neg (by simp), Lexeme.plain, if_neg (by decide), if_neg (by decide),
    if_neg (by decide), hn, if_neg (by decide), if_pos rfl, Lexeme.privateName, hp]
  rfl

/-- No text whose first token is a word starts with a line that is skipped. -/
theorem Reads.hashbang (h : s.Reads c w) (hx : Parted x) :
    ModuleBundler.hashbang (c :: (w ++ x)) = [] := by
  have hl := (h.before hx).2
  rw [ModuleBundler.hashbang, if_neg]
  rw [List.isPrefixOf_iff_prefix]
  rintro ⟨v, hv⟩
  rw [List.cons_append, List.cons_append, List.cons.injEq] at hv
  obtain ⟨rfl, hv⟩ := hv
  rw [← hv] at hl
  exact h.kind (hl ▸ lexeme_hashbang s v)

theorem gap_blank (hg : g = [] ∨ g = [' ']) (hw : Lexeme.gap w = []) :
    Lexeme.gap (g ++ w) = g := by
  refine Lexeme.gap_blanks (fun c hc => ?_) hw
  rcases hg with rfl | rfl
  · cases hc
  · rw [List.mem_singleton.mp hc]
    decide

end Scanner

namespace Spells
variable {s : Scanner} {c : Char} {w x g : List Char} {ts : List Token}

/-- A word at some distance from what follows is a token of its own. -/
theorem word (hg : g = [] ∨ g = [' ']) (hw : s.Reads c w) (hx : Parted x)
    (h : Spells (s.bracesAfter c (s.lexeme c w).kind) (s.lexeme c w).kind.endsExpression x ts) :
    Spells s.braces (s.previous.any TokenKind.endsExpression) (g ++ c :: (w ++ x))
      (⟨(s.lexeme c w).kind, .nowhere, (s.lexeme c w).value, false⟩ :: ts) := by
  intro s' hb he
  obtain ⟨hgap, hl⟩ := hw.before hx
  have hl : s'.lexeme c (w ++ x) = s.lexeme c w := by
    rw [← hl]
    exact congrFun (congrFun (Scanner.Like.lexeme ⟨hb, he⟩) c) _
  have hn : Scanner.newlineIn g (c :: (w ++ x)) = false := by
    have hk : (s'.lexeme c (w ++ x)).kind ≠ .error := by
      rw [hl]
      exact hw.kind
    rw [Scanner.newlineIn_of_kind hk]
    rcases hg with rfl | rfl <;> decide
  rw [Scanner.tokens_cons (Scanner.gap_blank hg hgap), hl, hw.size,
    List.drop_left, List.map_cons, List.map_cons]
  congr 1
  · simp only [Scanner.token, Token.unplaced, hl, hn]
  · refine h _ ?_ ?_
    · simp only [Scanner.after, Scanner.token, Scanner.bracesAfter, hl, hb]
    · simp only [Scanner.after, Scanner.token, hl, Option.any_some]

/-- Blanks at the end of a text spell nothing. -/
theorem blank {braces : List Brace} {ends : Bool} (hg : g = [] ∨ g = [' ']) :
    Spells braces ends g [⟨.eof, .nowhere, "", false⟩] := by
  intro s _ _
  have h := Scanner.gap_blank hg Lexeme.gap.eq_1
  rw [List.append_nil] at h
  rw [Scanner.tokens_nil h]
  rcases hg with rfl | rfl <;> rfl

end Spells
end ModuleBundler
