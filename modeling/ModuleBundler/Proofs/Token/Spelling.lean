import ModuleBundler.Proofs.Token.Cut

/-! The tokens of a text that is put together from parts. What they are depends on the text before
only by the braces that are open and by the last token there. -/
namespace ModuleBundler
open ModuleBundler.Text

/-- The braces among open brackets. -/
def Bracket.braces : List Bracket → List Brace
  | [] => []
  | .curly :: s => .block :: braces s
  | .template :: s => .substitution :: braces s
  | .paren :: s | .square :: s => braces s

theorem Bracket.close_ok {b : Bracket} {s s' : List Bracket} (h : close b s = some s') :
    s = b :: s' := by
  unfold close at h
  split at h
  · cases h
  · split at h
    · next hb => rw [hb, Option.some.inj h]
    · cases h

theorem Bracket.run_cons {s s' : List Bracket} {t : Token} {ts : List Token}
    (h : run s (t :: ts) = some s') : ∃ s₁, step s t.kind = some s₁ ∧ run s₁ ts = some s' := by
  rw [← List.singleton_append, run_append, run_singleton] at h
  exact Option.bind_eq_some_iff.mp h

namespace Lexeme
variable {c : Char} {w : List Char}

/-- A token that is neither the end mark nor goes on with a template. -/
def Opens (l : Lexeme) : Prop :=
  l.kind ≠ .templateMiddle ∧ l.kind ≠ .templateTail ∧ l.kind ≠ .eof

/-- What starts with no closing brace goes on with no template. -/
theorem plain_opens (divides : Bool) (c : Char) (w : List Char) : (plain divides c w).Opens := by
  unfold Opens
  cases reads_plain divides c w with
  | fault hk | string _ hk | privateName hk | regex hk => simp [hk]
  | template _ hk | number _ _ hk => rcases hk with hk | hk <;> simp [hk]
  | name _ hk => rcases hk with hk | ⟨word, hk⟩ <;> simp [hk]
  | pointNumber hl => simp [hl, pointNumber]
  | mark p _ hl => simp [hl, verbatim]

end Lexeme

namespace Scanner
variable {s s' : Scanner} {c m : Char} {w x : List Char} {st st₁ st' : List Bracket}
  {base : List Brace}

theorem lexeme_rBrace (h : s.braces.head? ≠ some .substitution) :
    s.lexeme '\x7d' w = Lexeme.verbatim (.punct .rBrace) ['\x7d'] := by
  have hf (q : Punctuator) : q.chars.head? = some '\x7d' → q = .rBrace := by
    cases q <;> decide
  rw [lexeme, if_neg fun hc => h hc.2]
  exact Lexeme.plain_mark rfl hf (by decide) (by decide) _ _

theorem lexeme_opens (hc : c ≠ '\x7d') (w : List Char) :
    (s.lexeme c w).kind ≠ .punct .rBrace ∧ (s.lexeme c w).Opens := by
  refine ⟨fun hk => ?_, ?_⟩
  · have hp : ['\x7d'].isPrefixOf (c :: w) = true := ((s.starts_lexeme c w).mark _ hk).1
    simp only [List.isPrefixOf, Bool.and_true, beq_iff_eq] at hp
    exact hc hp.symm
  · rw [lexeme, if_neg fun h => hc h.1]
    exact Lexeme.plain_opens _ c w

theorem lexeme_ne_eof (s : Scanner) (c : Char) (w : List Char) : (s.lexeme c w).kind ≠ .eof := by
  by_cases hc : c = '\x7d' ∧ s.braces.head? = some .substitution
  · rw [lexeme, if_pos hc]
    rcases Lexeme.template_goesOn w with h | h | h <;> simp [h]
  · rw [lexeme, if_neg hc]
    exact (Lexeme.plain_opens _ c w).2.2

/-- Where the brackets of a text are balanced, its tokens do not depend on the braces that are open
around it, and these stay open. -/
theorem lexeme_around (hs : s.braces = Bracket.braces st)
    (hs' : s'.braces = Bracket.braces st ++ base)
    (he : s'.previous.any TokenKind.endsExpression = s.previous.any TokenKind.endsExpression)
    (hst : Bracket.step st (s.lexeme c w).kind = some st₁) :
    s'.lexeme c w = s.lexeme c w ∧
      s'.bracesAfter c (s.lexeme c w).kind = Bracket.braces st₁ ++ base := by
  by_cases hc : c = '\x7d'
  · subst hc
    by_cases hb : s.braces.head? = some .substitution
    · have hl : s.lexeme '\x7d' w = Lexeme.template false w := by rw [lexeme, if_pos ⟨rfl, hb⟩]
      have hb' : s'.braces.head? = some .substitution := by
        rw [hs', ← hs, List.head?_append, hb]
        rfl
      have hl' : s'.lexeme '\x7d' w = Lexeme.template false w := by rw [lexeme, if_pos ⟨rfl, hb'⟩]
      rw [hl] at hst ⊢
      refine ⟨hl', ?_⟩
      rcases Lexeme.template_goesOn w with hk | hk | hk
      · rw [hk] at hst ⊢
        obtain rfl := Bracket.close_ok hst
        simp [bracesAfter, hs', Bracket.braces]
      · rw [hk] at hst ⊢
        obtain ⟨st₀, hst₀, rfl⟩ := Option.map_eq_some_iff.mp hst
        obtain rfl := Bracket.close_ok hst₀
        simp [bracesAfter, hs', Bracket.braces]
      · rw [hk] at hst
        cases hst
    · have hl := lexeme_rBrace (w := w) hb
      rw [hl] at hst ⊢
      obtain rfl := Bracket.close_ok hst
      have hb' : s'.braces.head? ≠ some .substitution := by
        rw [hs']
        rintro ⟨⟩
      refine ⟨lexeme_rBrace hb', ?_⟩
      simp [bracesAfter, hs', Bracket.braces, Lexeme.verbatim]
  · have hl : s'.lexeme c w = s.lexeme c w := by
      rw [lexeme, lexeme, if_neg fun h => hc h.1, if_neg fun h => hc h.1, he]
    refine ⟨hl, ?_⟩
    obtain ⟨h₁, h₂, h₃, -⟩ := lexeme_opens (s := s) hc w
    unfold bracesAfter
    rw [if_neg hc, hs']
    generalize (s.lexeme c w).kind = kind at hst h₁ h₂ h₃
    have hparen {b : Bracket} (hb : Bracket.braces (b :: st₁) = Bracket.braces st₁)
        (h : Bracket.close b st = some st₁) : Bracket.braces st = Bracket.braces st₁ := by
      rw [Bracket.close_ok h, hb]
    cases kind with
    | punct p =>
      cases p with
      | rBrace => exact absurd rfl h₁
      | rParen => exact congrArg (· ++ base) (hparen (b := .paren) rfl hst)
      | rBracket => exact congrArg (· ++ base) (hparen (b := .square) rfl hst)
      | _ =>
        obtain rfl := Option.some.inj hst
        rfl
    | templateMiddle => exact absurd rfl h₂
    | templateTail => exact absurd rfl h₃
    | eof | error => cases hst
    | _ =>
      obtain rfl := Option.some.inj hst
      rfl

end Scanner

/-- A token without its place. -/
def Token.unplaced (t : Token) : Token := { t with span := .nowhere }

/-- After text that leaves certain braces open and ends an expression or does not, a text is
spelled with certain tokens, whatever their places. -/
def Spells (braces : List Brace) (ends : Bool) (cs : List Char) (ts : List Token) : Prop :=
  ∀ s : Scanner, s.braces = braces → s.previous.any TokenKind.endsExpression = ends →
    (s.tokens cs).map Token.unplaced = ts.map Token.unplaced

/-- Whether the last of some tokens ends an expression, or else the text before them does. -/
def endsAfter (ends : Bool) (ts : List Token) : Bool :=
  ts.foldl (fun _ t => t.kind.endsExpression) ends

namespace Scanner
variable {s : Scanner} {m : Char} (hm : Stops m) {w x : List Char} {st st' : List Bracket}
  {base : List Brace} {ts : List Token}
include hm

omit hm in
theorem dropLast_tokens_cons {gap rest : List Char} {c : Char}
    (hg : Lexeme.gap (gap ++ c :: rest) = gap) :
    (s.tokens (gap ++ c :: rest)).dropLast = s.token gap c rest ::
      ((s.after (s.token gap c rest) c).tokens
        (rest.drop ((s.lexeme c rest).size - 1))).dropLast := by
  rw [tokens_cons hg]
  refine List.dropLast_cons_of_ne_nil fun h => ?_
  have hl := getLast?_tokens (s.after (s.token gap c rest) c)
    (rest.drop ((s.lexeme c rest).size - 1))
  rw [h] at hl
  cases hl

/-- A text whose brackets are balanced is spelled with the same tokens in another text, up to the
blanks and comments at its end. -/
theorem spells_part (hs : s.braces = Bracket.braces st)
    (hr : Bracket.run st (s.tokens w).dropLast = some st')
    (htail : ∀ g, g <:+ w → Lexeme.gap g = g →
      Spells (Bracket.braces st' ++ base)
        (endsAfter (s.previous.any TokenKind.endsExpression) (s.tokens w).dropLast)
        (g ++ m :: x) ts) :
    Spells (Bracket.braces st ++ base) (s.previous.any TokenKind.endsExpression) (w ++ m :: x)
      ((s.tokens w).dropLast ++ ts) := by
  induction s, w using text_induction generalizing st with
  | nil s cs hg =>
    rw [tokens_nil hg] at hr htail ⊢
    obtain rfl := Option.some.inj hr
    exact htail cs List.suffix_rfl hg
  | cons s gap c rest hg ih =>
    rw [dropLast_tokens_cons hg] at hr htail ⊢
    obtain ⟨st₁, hst, hr⟩ := Bracket.run_cons hr
    have hst : Bracket.step st (s.lexeme c rest).kind = some st₁ := hst
    have hne : (s.lexeme c rest).kind ≠ .error := by
      intro hk
      rw [hk] at hst
      cases hst
    have hbraces : (s.after (s.token gap c rest) c).braces = Bracket.braces st₁ := by
      have hnil : s.braces = Bracket.braces st ++ [] := by rw [hs, List.append_nil]
      have h := (lexeme_around hs hnil rfl hst).2
      rwa [List.append_nil] at h
    have hsuffix : rest.drop ((s.lexeme c rest).size - 1) <:+ gap ++ c :: rest :=
      (List.drop_suffix _ _).trans ((List.suffix_cons _ _).trans (List.suffix_append _ _))
    have hrest := ih hbraces hr fun g hg' hgap => htail g (hg'.trans hsuffix) hgap
    intro s' hs' he
    have hcut := lexeme_cut (x := x) hm hne
    obtain ⟨hgap, hnew⟩ := gap_cut (x := x) hm hg hne
    obtain ⟨hl, hb⟩ := lexeme_around (w := rest ++ m :: x) hs hs' he (by rw [hcut.same]; exact hst)
    rw [hcut.same] at hl hb
    have htoken : (s'.token gap c (rest ++ m :: x)).unplaced = (s.token gap c rest).unplaced := by
      simp only [token, Token.unplaced, hl, hnew]
    have hk : (s'.token gap c (rest ++ m :: x)).kind = (s.lexeme c rest).kind :=
      congrArg Token.kind htoken
    rw [List.append_assoc, List.cons_append, tokens_cons hgap, hl,
      List.drop_append_of_le_length (by have := hcut.size; omega), List.cons_append,
      List.map_cons, List.map_cons, htoken]
    refine congrArg _ (hrest _ ?_ ?_)
    · rw [← hb, ← hk]
      rfl
    · rw [after, after, Option.any_some, Option.any_some, hk]
      rfl

end Scanner

/-- A gap goes on after a comment. -/
theorem Lexeme.gap_after {text r : List Char} (hp : text <+: r)
    (hg : text ++ gap (r.drop text.length) = r) :
    text ++ r.drop text.length = r ∧ gap (r.drop text.length) = r.drop text.length := by
  have hr : text ++ r.drop text.length = r := List.prefix_iff_eq_append.mp hp
  refine ⟨hr, ?_⟩
  have h : text ++ gap (r.drop text.length) = text ++ r.drop text.length := hg.trans hr.symm
  exact List.append_cancel_left h

theorem Lexeme.gap_newline {g : List Char} (hg : gap g = g) (cs : List Char) :
    gap (g ++ '\n' :: cs) = g ++ gap ('\n' :: cs) := by
  fun_induction gap g with
  | case1 => rfl
  | case2 r text ih =>
    have hp : text <+: r := List.takeWhile_prefix _
    obtain ⟨hr, hd⟩ := gap_after hp (List.cons.inj (List.cons.inj hg).2).2
    have hl : lineComment (r ++ '\n' :: cs) = text := takeWhile_before (by decide) _ _
    simp only [List.cons_append]
    rw [gap]
    simp only [hl, List.drop_append_of_le_length hp.length_le, ih hd]
    rw [← List.append_assoc, hr]
  | case3 r text h ih =>
    have hp : text <+: r := (prefix_blockComment? h).1
    obtain ⟨hr, hd⟩ := gap_after hp (List.cons.inj (List.cons.inj hg).2).2
    have hb : blockComment? (r ++ '\n' :: cs) = some text := by
      have hb := blockComment?_append h (r.drop text.length ++ '\n' :: cs)
      rwa [← List.append_assoc, hr] at hb
    simp only [List.cons_append]
    rw [gap, hb]
    simp only [List.drop_append_of_le_length hp.length_le, ih hd]
    rw [← List.append_assoc, hr]
  | case4 r h => cases hg
  | case5 c r h₁ h₂ hc ih =>
    rw [List.cons_append, gap_cons_blank hc, ih (List.cons.inj hg).2, List.cons_append]
  | case6 c r h₁ h₂ hc => cases hg

/-- The first of some tokens, after the end of a line. -/
def startLine : List Token → List Token
  | [] => []
  | t :: ts => { t with newlineBefore := true } :: ts

@[simp] theorem length_startLine (ts : List Token) : (startLine ts).length = ts.length := by
  cases ts <;> rfl

theorem startLine_unplaced (ts : List Token) :
    (startLine ts).map Token.unplaced = startLine (ts.map Token.unplaced) := by
  cases ts <;> rfl

namespace Scanner

theorem gap_cons_newline (cs : List Char) :
    Lexeme.gap ('\n' :: cs) = '\n' :: Lexeme.gap cs :=
  Lexeme.gap_cons_blank (isBlank_of_isLineTerminator (by decide)) cs

theorem tokens_newline (s : Scanner) (cs : List Char) :
    s.tokens ('\n' :: cs) = startLine (Scanner.tokens { s with offset := s.offset + 1 } cs) := by
  have hn : isLineTerminator '\n' = true := by decide
  have hsize : '\n'.utf8Size = 1 := by decide
  rcases text_cases cs with hg | ⟨gap, c, rest, rfl, hg⟩
  · rw [tokens_nil (by rw [gap_cons_newline, hg]), tokens_nil hg]
    simp [startLine, Nat.add_assoc, hn, hsize]
  · have hg' : Lexeme.gap (('\n' :: gap) ++ c :: rest) = '\n' :: gap := by
      rw [List.cons_append, gap_cons_newline, hg]
    have ht : s.token ('\n' :: gap) c rest
        = { Scanner.token { s with offset := s.offset + 1 } gap c rest with
            newlineBefore := true } := by
      simp [token, newlineIn, lexeme, Nat.add_assoc, hn, hsize]
    rw [← List.cons_append, tokens_cons hg', tokens_cons hg, startLine, ht]
    rfl

/-- Blanks and comments before the end of a line change no token. -/
theorem tokens_gap {g : List Char} (hg : Lexeme.gap g = g) (s : Scanner) (cs : List Char) :
    s.tokens (g ++ '\n' :: cs)
      = Scanner.tokens { s with offset := s.offset + byteSize g } ('\n' :: cs) := by
  have hn : isLineTerminator '\n' = true := by decide
  rcases text_cases cs with hcs | ⟨gap, c, rest, rfl, hcs⟩
  · rw [tokens_nil (by rw [Lexeme.gap_newline hg, gap_cons_newline, hcs]),
      tokens_nil (by rw [gap_cons_newline, hcs])]
    simp [Nat.add_assoc, hn]
  · have hg₁ : Lexeme.gap (('\n' :: gap) ++ c :: rest) = '\n' :: gap := by
      rw [List.cons_append, gap_cons_newline, hcs]
    have hg₂ : Lexeme.gap ((g ++ '\n' :: gap) ++ c :: rest) = g ++ '\n' :: gap := by
      rw [List.append_assoc, List.cons_append, Lexeme.gap_newline hg, gap_cons_newline, hcs]
    have ht : s.token (g ++ '\n' :: gap) c rest
        = Scanner.token { s with offset := s.offset + byteSize g } ('\n' :: gap) c rest := by
      simp [token, newlineIn, lexeme, Nat.add_assoc, hn]
    rw [← List.cons_append, ← List.append_assoc, tokens_cons hg₁, tokens_cons hg₂, ht]
    rfl

end Scanner

namespace Spells
variable {braces : List Brace} {ends : Bool} {cs : List Char} {ts : List Token}

theorem newline (h : Spells braces ends cs ts) :
    Spells braces ends ('\n' :: cs) (startLine ts) := by
  intro s hs he
  have h := h { s with offset := s.offset + 1 } hs he
  rw [Scanner.tokens_newline, startLine_unplaced, h, ← startLine_unplaced]

theorem gap {g : List Char} (hg : Lexeme.gap g = g) (h : Spells braces ends ('\n' :: cs) ts) :
    Spells braces ends (g ++ '\n' :: cs) ts := by
  intro s hs he
  rw [Scanner.tokens_gap hg]
  exact h _ hs he

/-- A quoted text is a token of its own. -/
theorem quoted {g : List Char} (hg : ∀ c ∈ g, c = ' ') (v : String)
    (h : Spells braces true cs ts) :
    Spells braces ends (g ++ (Text.quoted v.toList ++ cs))
      (⟨.stringLiteral, .nowhere, v, false⟩ :: ts) := by
  intro s hs he
  have hgap : Lexeme.gap (g ++ '"' :: (v.toList.flatMap quoteChar ++ '"' :: cs)) = g := by
    refine Lexeme.gap_blanks (fun c hc => ?_) (Lexeme.gap_cons_mark (by decide) (by decide) _)
    rw [hg c hc]
    decide
  have hnew : g.any isLineTerminator = false := by
    rw [List.any_eq_false]
    intro c hc
    rw [hg c hc]
    decide
  have hq : g ++ (Text.quoted v.toList ++ cs)
      = g ++ '"' :: (v.toList.flatMap quoteChar ++ '"' :: cs) := by
    simp [Text.quoted]
  have ht : (s.token g '"' (v.toList.flatMap quoteChar ++ '"' :: cs)).unplaced
      = ⟨.stringLiteral, .nowhere, v, false⟩ := by
    simp [Scanner.token, Scanner.lexeme_quoted, Scanner.newlineIn, hnew, Lexeme.opensComment,
      Token.unplaced]
  have hk := congrArg Token.kind ht
  rw [hq, Scanner.tokens_cons hgap, Scanner.lexeme_quoted, Scanner.drop_quoted, List.map_cons,
    List.map_cons, ht]
  refine congrArg _ (h _ ?_ ?_)
  · rw [← hs]
    exact (congrArg (s.bracesAfter '"') hk).trans (Scanner.bracesAfter_text (by decide) rfl)
  · exact congrArg TokenKind.endsExpression hk

/-- At the end of the text the end mark follows. -/
theorem nil : Spells braces ends [] [⟨.eof, .nowhere, "", false⟩] := by
  intro s _ _
  rw [Scanner.tokens_nil (by rw [Lexeme.gap])]
  rfl

theorem of_unplaced {ts' : List Token} (ht : ts.map Token.unplaced = ts'.map Token.unplaced)
    (h : Spells braces ends cs ts) : Spells braces ends cs ts' := by
  intro s hs he
  rw [h s hs he, ht]

end Spells

theorem Text.stops_newline : Stops '\n' where
  name := by decide
  backslash := by decide
  brace := by decide
  mark p := by cases p <;> decide

theorem Text.stops_quote : Stops '"' where
  name := by decide
  backslash := by decide
  brace := by decide
  mark p := by cases p <;> decide

theorem Bracket.run_unplaced (s : List Bracket) (ts : List Token) :
    run s (ts.map Token.unplaced) = run s ts := by
  simp only [run, List.foldlM_map]
  rfl

theorem endsAfter_unplaced (ends : Bool) (ts : List Token) :
    endsAfter ends (ts.map Token.unplaced) = endsAfter ends ts := by
  simp only [endsAfter, List.foldl_map]
  rfl

/-- A text that ends with its last token: which tokens it is spelled with after the end of an
expression or elsewhere, and the brackets that are open before and after it. -/
def Fixed (ends : Bool) (st : List Bracket) (w : List Char) (us : List Token)
    (st' : List Bracket) : Prop :=
  let s : Scanner := ⟨0, if ends then some .identifier else none, Bracket.braces st⟩
  (s.tokens w).dropLast.map Token.unplaced = us ∧ Bracket.run st us = some st' ∧
    ∀ i < w.length, Lexeme.gap (w.drop i) ≠ w.drop i

instance {ends : Bool} {st : List Bracket} {w : List Char} {us : List Token}
    {st' : List Bracket} : Decidable (Fixed ends st w us st') := by
  unfold Fixed
  infer_instance

namespace Spells
variable {base : List Brace} {ends : Bool} {st st' : List Bracket} {w x : List Char}
  {us ts : List Token} {m : Char}

theorem fixed (hm : Stops m) (h : Fixed ends st w us st')
    (ht : Spells (Bracket.braces st' ++ base) (endsAfter ends us) (m :: x) ts) :
    Spells (Bracket.braces st ++ base) ends (w ++ m :: x) (us ++ ts) := by
  obtain ⟨rfl, hr, hw⟩ := h
  rw [Bracket.run_unplaced] at hr
  rw [endsAfter_unplaced] at ht
  generalize hs : Scanner.mk 0 (if ends then some .identifier else none) (Bracket.braces st) = s
    at hr ht ⊢
  obtain rfl : s.previous.any TokenKind.endsExpression = ends := by
    rw [← hs]
    cases ends <;> rfl
  -- No blanks and comments stand at the end of the text.
  have htail (g : List Char) (hg : g <:+ w) (hgap : Lexeme.gap g = g) :
      Spells (Bracket.braces st' ++ base)
        (endsAfter (s.previous.any TokenKind.endsExpression) (s.tokens w).dropLast)
        (g ++ m :: x) ts := by
    have hd : w.drop (w.length - g.length) = g := (List.suffix_iff_eq_drop.mp hg).symm
    have hl : ¬w.length - g.length < w.length := fun hl => hw _ hl (by rw [hd, hgap])
    obtain rfl : g = [] := by
      rw [← hd, List.drop_eq_nil_iff]
      omega
    exact ht
  have hb : s.braces = Bracket.braces st := by rw [← hs]
  refine (Scanner.spells_part hm hb hr htail).of_unplaced ?_
  rw [List.map_append, List.map_append, List.map_map]
  rfl

/-- The tokens of a source text whose brackets are balanced do not depend on what comes after its
last line. -/
theorem source {source : String} (hh : hashbang source.toList = [])
    (hr : Bracket.run [] (tokenize source).dropLast = some [])
    (ht : ∀ ends, Spells base ends ('\n' :: x) ts) :
    Spells base false (source.toList ++ '\n' :: x) ((tokenize source).dropLast ++ ts) := by
  rw [tokenize, hh] at hr ⊢
  have hb : (Scanner.mk 0 none []).braces = Bracket.braces [] := rfl
  exact Scanner.spells_part Text.stops_newline hb hr fun g _ hg => .gap hg (ht _)

end Spells
end ModuleBundler
