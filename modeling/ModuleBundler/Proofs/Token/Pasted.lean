import ModuleBundler.Proofs.Token.Legible
import ModuleBundler.Proofs.Token.Reprinted

/-! Quoted texts and names that are pasted into a text are read back as what they were. -/
namespace ModuleBundler
open ModuleBundler.Text

namespace Scanner
variable {s : Scanner}

/-- A token is read where it starts, by a scanner that has read what stands before it. -/
theorem mem_tokens {cs : List Char} {t : Token} : ∀ {p : List Char}, s.offset = byteSize p →
    t ∈ s.tokens cs → t.kind ≠ .eof → ∃ (s' : Scanner) (q gap : List Char) (c : Char)
      (rest : List Char), s'.offset = byteSize q ∧ p ++ cs = q ++ (gap ++ c :: rest) ∧
        Lexeme.gap (gap ++ c :: rest) = gap ∧ t = s'.token gap c rest := by
  induction s, cs using text_induction with
  | nil s cs hg =>
    intro p _ ht hk
    rw [tokens_nil hg] at ht
    obtain rfl := List.mem_singleton.mp ht
    exact absurd rfl hk
  | cons s gap c rest hg ih =>
    intro p hs ht hk
    rw [tokens_cons hg] at ht
    rcases List.mem_cons.mp ht with rfl | ht
    · exact ⟨s, p, gap, c, rest, hs, rfl, hg, rfl⟩
    · obtain ⟨q, hq, ho⟩ := offset_after hs gap c rest
      rw [hq]
      exact ih ho ht hk

/-- The token that a quoted text is. -/
theorem token_quoted (s : Scanner) (gap : List Char) (v : String) (rest : List Char) :
    s.token gap '"' (v.toList.flatMap quoteChar ++ '"' :: rest) =
      ⟨.stringLiteral, ⟨s.offset + byteSize gap,
        s.offset + byteSize gap + byteSize (quote v).toList⟩, v, gap.any isLineTerminator⟩ := by
  have ht : (v.toList.flatMap quoteChar ++ '"' :: rest).take
      ((v.toList.flatMap quoteChar).length + 2 - 1) = v.toList.flatMap quoteChar ++ ['"'] := by
    rw [← List.singleton_append, ← List.append_assoc]
    exact List.take_left' (by simp)
  have hk : (s.lexeme '"' (v.toList.flatMap quoteChar ++ '"' :: rest)).kind ≠ .error := by
    rw [lexeme_quoted]
    rintro ⟨⟩
  rw [token, lexeme_quoted, ht, newlineIn_of_kind hk, String.ofList_toList, quote, quoted,
    String.toList_ofList]

/-- A text that starts a string or template is one token up to the mark that closes it. -/
theorem tokens_closed {c : Char} {w rest : List Char} {kind : TokenKind} {value : String}
    (hc : ¬isBlank c ∧ c ≠ '/' ∧ c ≠ '\x7d') (hk : kind.isText = true)
    (h : s.lexeme c (w ++ rest) = ⟨kind, w.length + 1, value⟩) :
    s.tokens (c :: (w ++ rest)) =
      ⟨kind, ⟨s.offset, s.offset + byteSize (c :: w)⟩, value, false⟩ ::
        tokens ⟨s.offset + byteSize (c :: w), some kind, s.braces⟩ rest := by
  have hg : Lexeme.gap ([] ++ c :: (w ++ rest)) = [] := by
    exact Lexeme.gap_cons_mark hc.2.1 (Bool.eq_false_iff.mpr hc.1) _
  have hn : newlineIn [] (c :: (w ++ rest)) = false := by
    refine newlineIn_of_kind (s := s) ?_
    rw [h]
    rintro rfl
    cases hk
  have ht : s.token [] c (w ++ rest) =
      ⟨kind, ⟨s.offset, s.offset + byteSize (c :: w)⟩, value, false⟩ := by
    simp [token, h, hn]
  have htokens := tokens_cons (s := s) hg
  rw [List.nil_append, ht, h, after, bracesAfter_text hc.2.2 hk] at htokens
  simpa using htokens

/-- A quoted text is one token, whatever follows it. -/
theorem tokens_quoted (s : Scanner) (v : String) (rest : List Char) :
    s.tokens ((quote v).toList ++ rest) =
      ⟨.stringLiteral, ⟨s.offset, s.offset + byteSize (quote v).toList⟩, v, false⟩ ::
        tokens ⟨s.offset + byteSize (quote v).toList, some .stringLiteral, s.braces⟩ rest := by
  have hq : (quote v).toList = '"' :: (v.toList.flatMap quoteChar ++ ['"']) := by
    simp [quote, quoted]
  rw [hq]
  refine tokens_closed (by decide) rfl ?_
  simp [lexeme_quoted]

end Scanner

theorem mem_tokenize {source : String} {t : Token} (ht : t ∈ tokenize source)
    (hk : t.kind ≠ .eof) : ∃ (s : Scanner) (q gap : List Char) (c : Char) (rest : List Char),
      s.offset = byteSize q ∧ source.toList = q ++ (gap ++ c :: rest) ∧
        Lexeme.gap (gap ++ c :: rest) = gap ∧ t = s.token gap c rest := by
  have hw := List.prefix_iff_eq_append.mp (prefix_hashbang source.toList)
  rw [tokenize_eq] at ht
  have hm := Scanner.mem_tokens (p := hashbang source.toList) rfl ht hk
  rwa [hw] at hm

/-- The end mark stands at the end of the text. -/
theorem start_eof {source : String} {t : Token} (ht : t ∈ tokenize source) (hk : t.kind = .eof) :
    t.span.start = byteSize source.toList := by
  have hw := List.prefix_iff_eq_append.mp (prefix_hashbang source.toList)
  obtain ⟨ts, last, hts, hkinds, -, hl⟩ := (Scanner.start source.toList).tokens_concat
    (source.toList.drop (hashbang source.toList).length)
  rw [tokenize_eq, hts] at ht
  rcases List.mem_append.mp ht with ht | ht
  · exact absurd hk (hkinds t ht).1
  · have hb := congrArg byteSize hw
    rw [byteSize_append] at hb
    rw [List.mem_singleton.mp ht, hl, ← hb]
    rfl

/-- A token that starts where a quoted text starts is that text. -/
theorem token_of_quote {before v after : String} {t : Token}
    (ht : t ∈ tokenize (before ++ quote v ++ after))
    (hs : t.span.start = byteSize before.toList) :
    t.kind = .stringLiteral ∧ t.value = v ∧
      t.span = ⟨byteSize before.toList, byteSize before.toList + byteSize (quote v).toList⟩ := by
  have htext : (before ++ quote v ++ after).toList
      = before.toList ++ '"' :: (v.toList.flatMap quoteChar ++ '"' :: after.toList) := by
    simp [quote, quoted]
  have hk : t.kind ≠ .eof := by
    intro hk
    have he := start_eof ht hk
    rw [hs, htext, byteSize_append] at he
    have := byteSize_pos (List.cons_ne_nil '"' (v.toList.flatMap quoteChar ++ '"' :: after.toList))
    omega
  obtain ⟨s, q, gap, c, rest, ho, hsource, -, rfl⟩ := mem_tokenize ht hk
  have hstart : byteSize (q ++ gap) = byteSize before.toList := by
    rw [byteSize_append, ← ho]
    exact hs
  -- the text up to the token has as many bytes as the text before the quoted one
  have hrest := congrArg (dropBytes (byteSize (q ++ gap))) (hsource.symm.trans htext)
  rw [← List.append_assoc, dropBytes_append, hstart, dropBytes_append] at hrest
  obtain ⟨rfl, rfl⟩ := List.cons.inj hrest
  have hoffset : s.offset + byteSize gap = byteSize before.toList := hs
  rw [Scanner.token_quoted, hoffset]
  exact ⟨rfl, rfl, rfl⟩

/-- A quoted text is read as one string that denotes it: by every scanner, whatever text follows,
and wherever a token of a source text starts with it. Quoted texts differ where the texts do. -/
theorem quote_denotes (v : String) :
    (∀ (s : Scanner) (rest : List Char), s.tokens ((quote v).toList ++ rest) =
      ⟨.stringLiteral, ⟨s.offset, s.offset + byteSize (quote v).toList⟩, v, false⟩ ::
        Scanner.tokens ⟨s.offset + byteSize (quote v).toList, some .stringLiteral, s.braces⟩ rest) ∧
    (∀ before after : String, ∀ t ∈ tokenize (before ++ quote v ++ after),
      t.span.start = byteSize before.toList → t.kind = .stringLiteral ∧ t.value = v ∧
        t.span = ⟨byteSize before.toList, byteSize before.toList + byteSize (quote v).toList⟩) ∧
    ∀ w, quote v = quote w ↔ v = w := by
  refine ⟨fun s rest => s.tokens_quoted v rest, fun _ _ t ht => token_of_quote ht, fun w => ?_⟩
  refine ⟨fun h => ?_, congrArg quote⟩
  have hv := Scanner.tokens_quoted ⟨0, none, []⟩ v []
  rw [h, Scanner.tokens_quoted] at hv
  exact (congrArg Token.value (List.cons.inj hv).1).symm

theorem quote_denotes_argument :
    let t : Token := ⟨.stringLiteral, ⟨8, 25⟩, "./\"\u2028\n\x01", false⟩
    t ∈ tokenize ("require(" ++ quote "./\"\u2028\n\x01" ++ ");") ∧ t.span.start = 8 ∧
      t.kind = .stringLiteral ∧ t.value = "./\"\u2028\n\x01" := by
  intro t
  have ht : t ∈ tokenize ("require(" ++ quote "./\"\u2028\n\x01" ++ ");") := by decide +kernel
  obtain ⟨hk, hv, -⟩ := (quote_denotes "./\"\u2028\n\x01").2.1 "require(" ");" t ht rfl
  exact ⟨ht, rfl, hk, hv⟩

namespace Escape

theorem isNamePart_of_plain {cs : List Char} {p : Char × Nat} (hp : p ∈ nameParts cs)
    (hs : p.2 = 1) : isNamePart p.1 = true := by
  fun_induction nameParts cs with
  | case1 => cases hp
  | case2 cs ih =>
    rcases List.mem_cons.mp hp with rfl | hp
    · simp only at hs
      omega
    · exact ih hp
  | case3 c cs hc hn ih =>
    rcases List.mem_cons.mp hp with rfl | hp
    · exact hn
    · exact ih hp
  | case4 c cs hc hn => cases hp

theorem head?_nameParts {c : Char} {w : List Char} {p : Char × Nat}
    (hp : (nameParts (c :: w)).head? = some p) (hs : p.2 = 1) : p.1 = c := by
  by_cases hu : ∃ v, c = '\\' ∧ w = 'u' :: v
  · obtain ⟨v, rfl, rfl⟩ := hu
    rw [nameParts] at hp
    obtain rfl := Option.some.inj hp
    simp only at hs
    omega
  · rw [nameParts_cons fun v hc hw => hu ⟨v, hc, hw⟩] at hp
    split at hp
    · rw [← Option.some.inj hp]
    · cases hp

/-- Each escape in a name denotes a character that may stand in its place. -/
def Fit (text : List Char) : Prop :=
  (∀ p ∈ (nameParts text).head?, p.2 ≠ 1 → isNameStart p.1 = true) ∧
    ∀ p ∈ nameParts text, p.2 ≠ 1 → isNamePart p.1 = true

instance (text : List Char) : Decidable (Fit text) := inferInstanceAs (Decidable (_ ∧ _))

/-- The characters of a name, escaped or not, form a name. -/
theorem isName_of_fit {c : Char} {w : List Char} (hc : isNameStart c = true) (hf : Fit (c :: w))
    (hn : nameParts (c :: w) ≠ []) : ∃ d v, (nameParts (c :: w)).map Prod.fst = d :: v ∧
      isNameStart d = true ∧ (d :: v).all isNamePart = true := by
  obtain ⟨p, ps, hp⟩ := List.exists_cons_of_ne_nil hn
  refine ⟨p.1, ps.map Prod.fst, by rw [hp, List.map_cons], ?_, ?_⟩
  · by_cases hs : p.2 = 1
    · rwa [head?_nameParts (by rw [hp]; rfl) hs]
    · exact hf.1 p (by rw [hp]; rfl) hs
  · rw [← List.map_cons, ← hp, List.all_map, List.all_eq_true]
    intro q hq
    by_cases hs : q.2 = 1
    · exact isNamePart_of_plain hq hs
    · exact hf.2 q hq hs

end Escape

namespace Lexeme
variable {c : Char} {w : List Char} {divides : Bool}

/-- Only a character that starts a name starts one. -/
theorem isNameStart_of_identifier (h : (plain divides c w).kind = .identifier) :
    isNameStart c = true := by
  cases reads_plain divides c w with
  | name hc _ => exact hc
  | fault hk | string _ hk | privateName hk | regex hk => simp [hk] at h
  | template _ hk | number _ _ hk => rcases hk with hk | hk <;> simp [hk] at h
  | pointNumber hl => simp [hl, pointNumber] at h
  | mark p _ hl => simp [hl, verbatim] at h

/-- A reserved word is a name where it is written with an escape. -/
theorem name_identifier {cs : List Char} (h : (name cs).kind = .identifier) :
    Escape.nameParts cs ≠ [] ∧
      (name cs).value = String.ofList ((Escape.nameParts cs).map Prod.fst) ∧
      (Keyword.ofText? (name cs).value ≠ none → '\\' ∈ cs) := by
  simp only [name] at h ⊢
  split at h
  · cases h
  next hn =>
  rw [if_neg hn]
  refine ⟨by simpa using hn, ?_⟩
  split at h
  · next word hw =>
    split at h
    · next hb =>
      refine ⟨rfl, fun _ => List.mem_of_mem_take (by simpa using hb)⟩
    · cases h
  · next hw =>
    exact ⟨rfl, fun hk => absurd hw hk⟩

end Lexeme

theorem Scanner.name_of_identifier {s : Scanner} {c : Char} {w : List Char}
    (h : (s.lexeme c w).kind = .identifier) :
    isNameStart c = true ∧ s.lexeme c w = Lexeme.name (c :: w) := by
  unfold lexeme at h ⊢
  split at h
  · rcases Lexeme.template_goesOn w with hk | hk | hk <;> simp [hk] at h
  next hb =>
  have hc := Lexeme.isNameStart_of_identifier h
  rw [if_neg hb]
  exact ⟨hc, Lexeme.plain_name hc⟩

/-- The tokens of a text that is one token with nothing around it. -/
def lone (kind : TokenKind) (text : String) : List Token :=
  let size := byteSize text.toList
  [⟨kind, ⟨0, size⟩, text, false⟩, ⟨.eof, ⟨size, size⟩, "", false⟩]

/-- What a text that has the shape of a name is: a reserved word or a name. -/
def wordKind (text : String) : TokenKind :=
  ((Keyword.ofText? text).map .keyword).getD .identifier

theorem tokenize_plainName {text : String} {c : Char} {w : List Char} (ht : text.toList = c :: w)
    (hc : isNameStart c = true) (hw : (c :: w).all isNamePart = true) :
    tokenize text = lone (wordKind text) text := by
  have hk : wordKind text ≠ .error := by
    unfold wordKind
    cases Keyword.ofText? text <;> rintro ⟨⟩
  have hv : String.ofList (c :: w) = text := by rw [← ht, String.ofList_toList]
  obtain ⟨hr, hl⟩ := Scanner.reads_plainName (s := ⟨0, none, []⟩) (wordKind text) rfl hc hw hk
    (by rw [hv]; rfl)
  have hh := hr.hashbang (x := []) (.inl rfl)
  have hn : Scanner.newlineIn [] (c :: w) = false := Scanner.newlineIn_of_kind hr.kind
  rw [List.append_nil] at hh
  rw [tokenize, ht, hh]
  change Scanner.tokens ⟨0, none, []⟩ ([] ++ c :: w) = _
  rw [Scanner.tokens_cons hr.gap, hr.size, List.drop_length, Scanner.tokens_nil Lexeme.gap.eq_1]
  simp only [Scanner.after, Scanner.token, hn, hl, Lexeme.verbatim, hv, lone, ht]
  simp

/-- A name whose escapes denote characters of names is one token when its value stands alone: a
name, or the reserved word that it is if it was written with an escape. -/
theorem name_stands_alone {source : String} {t : Token} (ht : t ∈ tokenize source)
    (hk : t.kind = .identifier) (hf : Escape.Fit (t.slice source.toList)) :
    tokenize t.value = lone .identifier t.value ∨
      '\\' ∈ t.slice source.toList ∧
        ∃ k, Keyword.ofText? t.value = some k ∧ tokenize t.value = lone (.keyword k) t.value := by
  obtain ⟨s, q, gap, c, rest, hs, hsource, hg, rfl⟩ := mem_tokenize ht (by rw [hk]; rintro ⟨⟩)
  have hl : (s.lexeme c rest).kind = .identifier := hk
  rw [hsource, Scanner.slice_token hs] at hf ⊢
  -- the token is read from its own text, so its parts are those of that text
  obtain ⟨-, ha⟩ := Scanner.reads_token hg (by rw [hl]; rintro ⟨⟩)
  have hvalue : (s.token gap c rest).value = (s.lexeme c rest).value := rfl
  rw [hvalue]
  generalize rest.take ((s.lexeme c rest).size - 1) = w at hf ha ⊢
  rw [← ha] at hl ⊢
  obtain ⟨hc, hname⟩ := Scanner.name_of_identifier hl
  rw [hname] at hl ⊢
  obtain ⟨hn, hv, hescaped⟩ := Lexeme.name_identifier hl
  obtain ⟨d, v, hparts, hd, hall⟩ := Escape.isName_of_fit hc hf hn
  have hchars : (Lexeme.name (c :: w)).value.toList = d :: v := by
    rw [hv, hparts, String.toList_ofList]
  have halone := tokenize_plainName hchars hd hall
  rw [halone, wordKind]
  cases hword : Keyword.ofText? (Lexeme.name (c :: w)).value with
  | none => exact .inl rfl
  | some k => exact .inr ⟨hescaped (by rw [hword]; rintro ⟨⟩), k, rfl, rfl⟩

theorem name_stands_alone_escaped :
    let source := "let \\u006ea\\u\x7b6d\x7de2;"
    let t : Token := ⟨.identifier, ⟨4, 19⟩, "name2", false⟩
    t ∈ tokenize source ∧ t.kind = .identifier ∧ Escape.Fit (t.slice source.toList) ∧
      (tokenize t.value = lone .identifier t.value ∨ '\\' ∈ t.slice source.toList ∧
        ∃ k, Keyword.ofText? t.value = some k ∧ tokenize t.value = lone (.keyword k) t.value) := by
  intro source t
  have ht : t ∈ tokenize source := by decide +kernel
  have hf : Escape.Fit (t.slice source.toList) := by decide +kernel
  exact ⟨ht, rfl, hf, name_stands_alone ht rfl hf⟩

/-- A reserved word that was written with an escape is a name, and none when its value stands
alone. -/
theorem escaped_word_alone : ¬ ∀ source, ∀ t ∈ tokenize source, t.kind = .identifier →
    tokenize t.value = lone .identifier t.value := by
  intro h
  have hvar := h "v\\u0061r" ⟨.identifier, ⟨0, 8⟩, "var", false⟩ (by decide +kernel) rfl
  exact absurd hvar (by decide +kernel)

end ModuleBundler
