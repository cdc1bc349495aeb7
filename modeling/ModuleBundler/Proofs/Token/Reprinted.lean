import ModuleBundler.Proofs.Token.Alone
import ModuleBundler.Proofs.Token.Tiling
import ModuleBundler.Proofs.Token.Words

/-! A source text whose tokens are printed with single blanks between them has the same tokens. -/
namespace ModuleBundler
open ModuleBundler.Text

/-- The text between the ends of a token. -/
def Token.slice (t : Token) (cs : List Char) : List Char := Text.slice t.span.start t.span.stop cs

/-- The texts of tokens in a source, but for the end mark. -/
def slices (cs : List Char) (ts : List Token) : List (List Char) :=
  (ts.filter (·.kind ≠ .eof)).map (·.slice cs)

/-- A source text printed token by token, with single blanks in place of all that stands between
its tokens. -/
def reprint (source : String) : String :=
  String.ofList ([' '].intercalate (slices source.toList (tokenize source)))

/-- A token that stands on the line of the token before it, wherever that is. -/
def Token.inline (t : Token) : Token := ⟨t.kind, .nowhere, t.value, false⟩

namespace Scanner
variable {s : Scanner} {p gap rest : List Char} {c : Char}

/-- The token that starts with a character is read from its own text. -/
theorem reads_token (hg : Lexeme.gap (gap ++ c :: rest) = gap)
    (hk : (s.lexeme c rest).kind ≠ .error) :
    s.Reads c (rest.take ((s.lexeme c rest).size - 1))
      ∧ s.lexeme c (rest.take ((s.lexeme c rest).size - 1)) = s.lexeme c rest := by
  have hs := (lexeme_cut stops_space (x := []) hk).size
  generalize hw : rest.take ((s.lexeme c rest).size - 1) = w
  have hl : (s.lexeme c rest).size - 1 = w.length := by
    rw [← hw, List.length_take]
    omega
  obtain ⟨r, rfl⟩ : ∃ r, rest = w ++ r := ⟨_, by rw [← hw, List.take_append_drop]⟩
  have ha := lexeme_alone hk hl
  have hr := starts_no_comment (gap_token hg) hk
  have hw (d : Char) (v : List Char) (hs : c = '/') (hv : w = d :: v) : d ≠ '/' ∧ d ≠ '*' :=
    hr d (v ++ r) hs (by rw [hv, List.cons_append])
  have hgap := (gap_eq_nil hw).mpr ((gap_eq_nil hr).mp (gap_token hg))
  exact ⟨⟨hgap, by rwa [ha], by rw [ha]; exact hl⟩, ha⟩

theorem slice_token (hs : s.offset = byteSize p) :
    (s.token gap c rest).slice (p ++ (gap ++ c :: rest))
      = c :: rest.take ((s.lexeme c rest).size - 1) := by
  have h := slice_append (p ++ gap) (c :: rest.take ((s.lexeme c rest).size - 1))
    (rest.drop ((s.lexeme c rest).size - 1))
  rw [List.cons_append, List.take_append_drop, List.append_assoc] at h
  rw [Token.slice, ← h]
  simp only [token, hs, byteSize_append]

theorem slices_tokens (hs : s.offset = byteSize p) (hg : Lexeme.gap (gap ++ c :: rest) = gap) :
    slices (p ++ (gap ++ c :: rest)) (s.tokens (gap ++ c :: rest))
      = (c :: rest.take ((s.lexeme c rest).size - 1)) :: slices (p ++ (gap ++ c :: rest))
        ((s.after (s.token gap c rest) c).tokens (rest.drop ((s.lexeme c rest).size - 1))) := by
  have hk : (s.token gap c rest).kind ≠ .eof := lexeme_ne_eof s c rest
  rw [tokens_cons hg, slices, List.filter_cons, if_pos (by simpa using hk), List.map_cons,
    slice_token hs]
  rfl

/-- The texts of the tokens, after a blank or at once, spell the same tokens. -/
theorem spells_slices (s : Scanner) (cs : List Char) : ∀ p g, s.offset = byteSize p →
    (g = [] ∨ g = [' ']) → (∀ t ∈ s.tokens cs, t.kind ≠ .error) →
    Spells s.braces (s.previous.any TokenKind.endsExpression)
      (g ++ [' '].intercalate (slices (p ++ cs) (s.tokens cs)))
      ((s.tokens cs).map Token.inline) := by
  induction s, cs using text_induction with
  | nil s cs hg =>
    intro p g _ hblank _
    rw [tokens_nil hg]
    simpa [slices, Token.inline] using Spells.blank hblank
  | cons s gap c rest hg ih =>
    intro p g hs hblank hk
    have hkind : (s.lexeme c rest).kind ≠ .error :=
      hk (s.token gap c rest) (by rw [tokens_cons hg]; exact List.mem_cons_self)
    obtain ⟨hw, hl⟩ := reads_token hg hkind
    obtain ⟨text, htext, hoffset⟩ := offset_after (s := s) hs gap c rest
    rw [slices_tokens hs hg]
    obtain ⟨g', hg', hx, he⟩ := intercalate_cons
      (c :: rest.take ((s.lexeme c rest).size - 1)) (slices (p ++ (gap ++ c :: rest))
        ((s.after (s.token gap c rest) c).tokens (rest.drop ((s.lexeme c rest).size - 1))))
    have htail := ih text g' hoffset hg' fun t ht =>
      hk t (by rw [tokens_cons hg]; exact List.mem_cons_of_mem _ ht)
    rw [← htext] at htail
    have h := Spells.word hblank hw hx (by rw [hl]; exact htail)
    rw [hl] at h
    rw [he, tokens_cons hg]
    exact h

theorem hashbang_slices {cs : List Char} (hs : s.offset = byteSize p)
    (hk : ∀ t ∈ s.tokens cs, t.kind ≠ .error) :
    hashbang ([' '].intercalate (slices (p ++ cs) (s.tokens cs))) = [] := by
  rcases text_cases cs with hg | ⟨gap, c, rest, rfl, hg⟩
  · rw [tokens_nil hg]
    rfl
  · have hkind : (s.lexeme c rest).kind ≠ .error :=
      hk (s.token gap c rest) (by rw [tokens_cons hg]; exact List.mem_cons_self)
    obtain ⟨hw, -⟩ := reads_token hg hkind
    rw [slices_tokens hs hg]
    obtain ⟨g, -, hx, he⟩ := intercalate_cons
      (c :: rest.take ((s.lexeme c rest).size - 1)) (slices (p ++ (gap ++ c :: rest))
        ((s.after (s.token gap c rest) c).tokens (rest.drop ((s.lexeme c rest).size - 1))))
    rw [he, List.cons_append, hw.hashbang hx]

end Scanner

/-- A source text without faults has the same tokens, but for their places, as the texts of its
tokens with single blanks between them. -/
theorem tokenize_reprint (source : String) (h : ∀ t ∈ tokenize source, t.kind ≠ .error) :
    (tokenize (reprint source)).map (fun t => (t.kind, t.value))
      = (tokenize source).map (fun t => (t.kind, t.value)) := by
  have hp := List.prefix_iff_eq_append.mp (prefix_hashbang source.toList)
  have hs := Scanner.spells_slices (Scanner.start source.toList)
    (source.toList.drop (hashbang source.toList).length) (hashbang source.toList) [] rfl
    (.inl rfl) h
  rw [hp, List.nil_append, ← tokenize_eq] at hs
  have hh : hashbang (reprint source).toList = [] := by
    have hh := Scanner.hashbang_slices (s := Scanner.start source.toList) rfl h
    rwa [hp, ← tokenize_eq, ← String.toList_ofList (l := [' '].intercalate _)] at hh
  have ht := hs (Scanner.start (reprint source).toList) rfl rfl
  have hr : [' '].intercalate (slices source.toList (tokenize source))
      = (reprint source).toList.drop (hashbang (reprint source).toList).length := by
    rw [hh, List.length_nil, List.drop_zero, reprint, String.toList_ofList]
  rw [hr, ← tokenize_eq] at ht
  have hm := congrArg (List.map fun t : Token => (t.kind, t.value)) ht
  rw [List.map_map, List.map_map, List.map_map] at hm
  exact hm

theorem tokenize_reprint_template :
    let source := "#!sh\na=b?.5:c++/d,\t0x1F, 1..e5;/[/]/g.test(`x$\x7ba\x7dy`/*!*/);\x7b/`/u\x7d"
    (∀ t ∈ tokenize source, t.kind ≠ .error) ∧
      (tokenize (reprint source)).map (fun t => (t.kind, t.value))
        = (tokenize source).map (fun t => (t.kind, t.value)) :=
  ⟨by decide +kernel, tokenize_reprint _ (by decide +kernel)⟩

end ModuleBundler
