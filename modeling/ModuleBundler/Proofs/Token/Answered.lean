import ModuleBundler.Proofs.Grammar.Twin
import ModuleBundler.Proofs.Token.Ending
import ModuleBundler.Proofs.Token.Quoted
import ModuleBundler.Proofs.Token.Scan
import ModuleBundler.Proofs.Token.Start

/-! A text with quoted answers in place of some tokens, and the tokens of the new text. -/
namespace ModuleBundler
open ModuleBundler.Text

variable {a : Answers}

/-- Only arguments have answers. -/
def ArgumentsOnly (a : Answers) : Token → List Token → Prop
  | _, [] => True
  | previous, t :: ts => ((a t.span).isSome → previous.isArgument t = true) ∧ ArgumentsOnly a t ts

/-- Two texts are the same, or so up to a parenthesis after a number of characters. -/
def Near (n : Nat) (cs cs' : List Char) : Prop :=
  cs' = cs ∨ ∃ w r r', n ≤ w.length ∧ cs = w ++ '(' :: r ∧ cs' = w ++ '(' :: r'

theorem Near.append {n : Nat} {u cs cs' : List Char} (h : Near 0 cs cs')
    (hn : cs = [] ∨ n ≤ u.length) :
    Near n (u ++ cs) (u ++ cs') := by
  rcases h with rfl | ⟨w, r, r', -, rfl, rfl⟩
  · exact .inl rfl
  · refine .inr ⟨u ++ w, r, r', ?_, by simp, by simp⟩
    rcases hn with h | h
    · simp at h
    · rw [List.length_append]
      omega

namespace Scanner

/-- The text of a token, or the quoted answer in its place. -/
def answer (a : Answers) (t : Token) (text : List Char) : List Char :=
  match a t.span with
  | some v => quoted v.toList
  | none => text

theorem answer_none {t : Token} (h : a t.span = none) (text : List Char) :
    answer a t text = text := by
  simp only [answer, h]

theorem answer_some {t : Token} {v : String} (h : a t.span = some v) (text : List Char) :
    answer a t text = quoted v.toList := by
  simp only [answer, h]

/-- The text that is still to be read with quoted answers in place of tokens. -/
def answered (a : Answers) (s : Scanner) (cs : List Char) : List Char :=
  let gap := Lexeme.gap cs
  match _h : cs.drop gap.length with
  | [] => cs
  | c :: rest =>
    let t := s.token gap c rest
    let extra := (s.lexeme c rest).size - 1
    gap ++ (answer a t (c :: rest.take extra) ++ answered a (s.after t c) (rest.drop extra))
  termination_by cs.length
  decreasing_by
    have hl := congrArg List.length _h
    rw [List.length_drop, List.length_cons] at hl
    rw [List.length_drop]
    omega

variable {s s' : Scanner} {c : Char} {cs gap rest : List Char}

theorem answered_nil (h : Lexeme.gap cs = cs) : answered a s cs = cs := by
  rw [answered]
  split
  · rfl
  · next hd =>
    rw [h, List.drop_length] at hd
    cases hd

theorem answered_cons (h : Lexeme.gap (gap ++ c :: rest) = gap) :
    answered a s (gap ++ c :: rest) = gap ++ (answer a (s.token gap c rest)
      (c :: rest.take ((s.lexeme c rest).size - 1))
        ++ answered a (s.after (s.token gap c rest) c)
          (rest.drop ((s.lexeme c rest).size - 1))) := by
  rw [answered]
  split
  · next hd =>
    rw [h, List.drop_left] at hd
    cases hd
  · next hd =>
    rw [h, List.drop_left] at hd
    obtain ⟨rfl, rfl⟩ := List.cons.inj hd
    rw [h]

/-- Two scanners that read the same tokens. -/
def Like (s s' : Scanner) : Prop :=
  s'.braces = s.braces
    ∧ s'.previous.any TokenKind.endsExpression = s.previous.any TokenKind.endsExpression

theorem Like.lexeme (h : s.Like s') : s'.lexeme = s.lexeme := by
  funext c cs
  rw [Scanner.lexeme, Scanner.lexeme, h.1, h.2]

theorem token_lParen (h : (s.token gap c rest).kind = .punct .lParen) :
    c = '(' ∧ (s.lexeme c rest).size = 1 := by
  obtain ⟨hp, hl⟩ := (s.starts_lexeme c rest).mark _ h
  change ['('].isPrefixOf (c :: rest) = true at hp
  rw [hl]
  simp only [List.isPrefixOf, Bool.and_true, beq_iff_eq] at hp
  exact ⟨hp.symm, rfl⟩

/-- Unless its first token is answered, a text stays near to itself. -/
theorem near_answered {previous : Token} (hp : previous.kind ≠ .punct .lParen)
    (h : ArgumentsOnly a previous (s.tokens cs)) : Near 0 cs (answered a s cs) := by
  induction s, cs using text_induction generalizing previous with
  | nil s cs hg => exact .inl (answered_nil hg)
  | cons s gap c rest hg ih =>
    rw [tokens_cons hg] at h
    have hn : a (s.token gap c rest).span = none := by
      rw [← Option.not_isSome_iff_eq_none]
      intro hs
      have ha := h.1 hs
      simp only [Token.isArgument, Bool.and_eq_true, beq_iff_eq] at ha
      exact hp ha.1
    rw [answered_cons hg, answer_none hn]
    by_cases hk : (s.token gap c rest).kind = .punct .lParen
    · obtain ⟨rfl, hs⟩ := token_lParen hk
      exact .inr ⟨gap, rest, _, Nat.zero_le _, rfl, by rw [hs]; rfl⟩
    · have hd := ih hk h.2
      have hc := hd.append (n := 0) (u := gap ++ (c :: rest.take ((s.lexeme c rest).size - 1)))
        (.inr (Nat.zero_le _))
      simpa [List.append_assoc] using hc

/-- Where a text is near to another one, the same token is read from both. -/
theorem lexeme_near {rest' : List Char} (h : Near ((s.lexeme c rest).size - 1) rest rest') :
    s.lexeme c rest' = s.lexeme c rest := by
  rcases h with rfl | ⟨w, r, r', hl, rfl, rfl⟩
  · rfl
  by_cases hc : c = '\x7d' ∧ s.braces.head? = some .substitution
  · simp only [lexeme, if_pos hc] at hl ⊢
    exact Lexeme.template_before r' (by omega)
  · simp only [lexeme, if_neg hc] at hl ⊢
    exact Lexeme.plain_before r' (by omega)

theorem opensComment_iff :
    Lexeme.opensComment (c :: rest) = true ↔ c = '/' ∧ rest.head? = some '*' := by
  unfold Lexeme.opensComment
  split
  · next h =>
    obtain ⟨rfl, rfl⟩ := List.cons.inj h
    simp
  · next h =>
    simp only [Bool.false_eq_true, false_iff, not_and]
    rintro rfl hr
    obtain ⟨v, rfl⟩ := List.head?_eq_some_iff.mp hr
    exact h v rfl

theorem lexeme_of_opensComment (h : Lexeme.opensComment (c :: rest) = true) :
    s.lexeme c rest = Lexeme.fault (rest.length + 1) "Unterminated multi-line comment" := by
  have hn : isNameStart '/' = false := by decide
  obtain ⟨rfl, hr⟩ := opensComment_iff.mp h
  rw [lexeme, if_neg (by simp), Lexeme.plain, if_neg (by decide), if_neg (by decide),
    if_neg (by decide), hn, if_neg (by decide), if_neg (by decide), if_pos rfl, if_pos hr]

theorem not_opensComment (h : (s.lexeme c rest).kind ≠ .error) :
    Lexeme.opensComment (c :: rest) = false := by
  rw [Bool.eq_false_iff]
  intro ho
  rw [lexeme_of_opensComment ho] at h
  exact h rfl

/-- A line that ends in an open comment only marks the fault that the comment is. -/
theorem newlineIn_of_kind (h : (s.lexeme c rest).kind ≠ .error) :
    newlineIn gap (c :: rest) = gap.any isLineTerminator := by
  rw [newlineIn, not_opensComment h, Bool.false_and, Bool.or_false]

theorem size_of_opensComment (h : Lexeme.opensComment (c :: rest) = true) :
    (s.lexeme c rest).size = rest.length + 1 := by
  rw [lexeme_of_opensComment h]
  rfl

theorem gap_token (hg : Lexeme.gap (gap ++ c :: rest) = gap) : Lexeme.gap (c :: rest) = [] := by
  have h := Lexeme.gap_drop (gap ++ c :: rest)
  rwa [hg, List.drop_left] at h

theorem gap_append_token {x : List Char} (hg : Lexeme.gap (gap ++ c :: rest) = gap)
    (hx : Lexeme.gap x = []) : Lexeme.gap (gap ++ x) = gap := by
  have hn : Lexeme.gap (gap ++ c :: rest) ≠ gap ++ c :: rest := by simp [hg]
  have h := Lexeme.gap_append hn hx
  rwa [hg] at h

/-- Blanks and comments stay the same before a text that is near. -/
theorem gap_near {rest' : List Char} (hg : Lexeme.gap (gap ++ c :: rest) = gap)
    (h : Near ((s.lexeme c rest).size - 1) rest rest') :
    Lexeme.gap (gap ++ c :: rest') = gap
      ∧ newlineIn gap (c :: rest') = newlineIn gap (c :: rest) := by
  rcases h with rfl | ⟨w, r, r', hl, hr, hr'⟩
  · exact ⟨hg, rfl⟩
  have hh : rest'.head? = rest.head? := by
    rw [hr, hr']
    cases w <;> rfl
  have ho : Lexeme.opensComment (c :: rest) = false := by
    rw [Bool.eq_false_iff]
    intro h
    rw [size_of_opensComment h, hr, List.length_append, List.length_cons] at hl
    omega
  have ho' : Lexeme.opensComment (c :: rest') = false := by
    rw [← ho, Bool.eq_iff_iff, opensComment_iff, opensComment_iff, hh]
  refine ⟨gap_append_token hg ?_, by rw [newlineIn, newlineIn, ho, ho']; rfl⟩
  have hc := gap_token hg
  have hd : ∀ u : List Char, u.head? = rest.head? → ∀ d v, c = '/' → u = d :: v →
      d ≠ '/' ∧ d ≠ '*' := by
    rintro _ hu d v rfl rfl
    obtain ⟨u, hu⟩ := List.head?_eq_some_iff.mp hu.symm
    constructor
    · rintro rfl
      rw [hu, Lexeme.gap] at hc
      cases hc
    · rintro rfl
      rw [Bool.eq_false_iff] at ho
      exact ho (opensComment_iff.mpr ⟨rfl, by rw [hu]; rfl⟩)
  rw [Lexeme.gap_plain (hd rest rfl)] at hc
  rw [Lexeme.gap_plain (hd rest' hh)]
  split at hc
  · cases hc
  · next hb => rw [if_neg hb]

theorem drop_take_append {n : Nat} {u x : List Char} (h : u.drop n = [] → x = []) :
    (u.take n ++ x).drop n = x := by
  rcases Nat.lt_or_ge u.length n with hl | hl
  · rw [h (List.drop_eq_nil_of_le (Nat.le_of_lt hl)), List.append_nil, List.drop_take_self]
  · have hn : n ≤ (u.take n).length := Nat.le_of_eq (List.length_take_of_le hl).symm
    rw [List.drop_append_of_le_length hn, List.drop_take_self, List.nil_append]

/-- A token without an answer stays. -/
theorem token_unanswered {x : List Char} (hs : s.Like s')
    (hg : Lexeme.gap (gap ++ c :: rest) = gap)
    (h : (s.token gap c rest).kind ≠ .punct .lParen →
      Near 0 (rest.drop ((s.lexeme c rest).size - 1)) x) :
    let rest' := rest.take ((s.lexeme c rest).size - 1) ++ x
    Lexeme.gap (gap ++ c :: rest') = gap ∧ s'.lexeme c rest' = s.lexeme c rest
      ∧ newlineIn gap (c :: rest') = newlineIn gap (c :: rest) := by
  intro rest'
  rw [hs.lexeme]
  by_cases hk : (s.token gap c rest).kind = .punct .lParen
  · obtain ⟨rfl, -⟩ := token_lParen hk
    exact ⟨gap_append_token hg (Lexeme.gap_cons_mark (by decide) (by decide) _),
      by rw [lexeme_lParen, lexeme_lParen], rfl⟩
  · have hn : Near ((s.lexeme c rest).size - 1) rest rest' := by
      have hx := (h hk).append (n := (s.lexeme c rest).size - 1)
        (u := rest.take ((s.lexeme c rest).size - 1)) ?_
      · rwa [List.take_append_drop] at hx
      · rw [List.drop_eq_nil_iff, List.length_take]
        omega
    obtain ⟨hgap, hnew⟩ := gap_near hg hn
    exact ⟨hgap, lexeme_near hn, hnew⟩

theorem token_kind (gap : List Char) : (s.token gap c rest).kind = (s.lexeme c rest).kind := rfl

theorem Like.bracesAfter (hs : s.Like s') (c : Char) (k : TokenKind) :
    s'.bracesAfter c k = s.bracesAfter c k := by
  unfold Scanner.bracesAfter
  rw [hs.1]

theorem like_after {t t' : Token} {d : Char}
    (hb : s'.bracesAfter d t'.kind = s.bracesAfter c t.kind)
    (he : t'.kind.endsExpression = t.kind.endsExpression) : (s.after t c).Like (s'.after t' d) :=
  ⟨hb, by simpa [Scanner.after] using he⟩

/-- A text closes no brace and opens none. -/
theorem bracesAfter_text {k : TokenKind} (hc : c ≠ '\x7d') (hk : k.isText = true) :
    s.bracesAfter c k = s.braces := by
  unfold bracesAfter
  rw [if_neg hc]
  cases k <;> first | rfl | cases hk

/-- A quoted text is a token of its own, whatever follows it. -/
theorem lexeme_quoted (v x : List Char) :
    s.lexeme '"' (v.flatMap quoteChar ++ '"' :: x)
      = ⟨.stringLiteral, (v.flatMap quoteChar).length + 2, String.ofList v⟩ := by
  rw [lexeme, if_neg (by simp), Lexeme.plain, if_pos (.inl rfl), Lexeme.string_quoted]

/-- What is left behind a quoted text. -/
theorem drop_quoted (v x : List Char) :
    (v.flatMap quoteChar ++ '"' :: x).drop ((v.flatMap quoteChar).length + 2 - 1) = x := by
  rw [List.drop_append]
  simp

theorem twins_answered {previous : Token} (hs : s.Like s')
    (h : ArgumentsOnly a previous (s.tokens cs)) :
    Twins a previous (s.tokens cs) (s'.tokens (answered a s cs)) := by
  induction s, cs using text_induction generalizing previous s' with
  | nil s cs hg =>
    rw [answered_nil hg, tokens_nil hg, tokens_nil hg]
    exact .cons (.same rfl rfl rfl (by rintro ⟨⟩)) .nil
  | cons s gap c rest hg ih =>
    rw [tokens_cons hg] at h ⊢
    rw [answered_cons hg]
    have hnil : rest.drop ((s.lexeme c rest).size - 1) = [] →
        answered a (s.after (s.token gap c rest) c) (rest.drop ((s.lexeme c rest).size - 1))
          = [] := by
      intro h
      rw [h, answered_nil (by rw [Lexeme.gap])]
    cases ha : a (s.token gap c rest).span with
    | none =>
      rw [answer_none ha, List.cons_append]
      obtain ⟨hgap, hl, hn⟩ := token_unanswered hs hg fun hk => near_answered hk h.2
      rw [tokens_cons hgap, hl, drop_take_append hnil]
      have hk : (s'.token gap c (rest.take ((s.lexeme c rest).size - 1) ++ answered a
          (s.after (s.token gap c rest) c) (rest.drop ((s.lexeme c rest).size - 1)))).kind
          = (s.token gap c rest).kind := by
        rw [token_kind, token_kind, hl]
      refine .cons (.same hk ?_ hn fun _ => ha) (ih (like_after ?_ ?_) h.2)
      · exact congrArg Lexeme.value hl
      · rw [hk, hs.bracesAfter]
      · rw [hk]
    | some v =>
      rw [answer_some ha, quoted]
      have harg := h.1 (by rw [ha]; rfl)
      have htext : (s.token gap c rest).kind.isText = true := by
        simp only [Token.isArgument, Bool.and_eq_true] at harg
        exact harg.2
      have hc := (s.starts_lexeme c rest).text htext
      simp only [List.cons_append, List.append_assoc, List.nil_append]
      rw [tokens_cons (gap_append_token hg (Lexeme.gap_cons_mark (by decide) (by decide) _)),
        lexeme_quoted, drop_quoted]
      refine .cons (.answered harg ?_ ?_ ?_) (ih (like_after ?_ ?_) h.2)
      · simp only [token, lexeme_quoted, String.ofList_toList]
        exact ha
      · simp only [token, lexeme_quoted]
      · have hk : (s.lexeme c rest).kind ≠ .error := TokenKind.ne_error_of_isText htext
        exact (Bool.or_false _).trans (newlineIn_of_kind hk).symm
      · have hb : c ≠ '\x7d' := by
          rintro rfl
          exact absurd hc (by decide)
        rw [bracesAfter_text hb htext, ← hs.1]
        simp only [token, lexeme_quoted]
        exact bracesAfter_text (by decide) rfl
      · simp only [token, lexeme_quoted]
        exact (TokenKind.endsExpression_of_isText htext).symm

end Scanner
end ModuleBundler
