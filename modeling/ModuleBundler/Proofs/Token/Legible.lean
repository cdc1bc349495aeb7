import ModuleBundler.Proofs.Grammar.Yield
import ModuleBundler.Proofs.Token.Alone
import ModuleBundler.Proofs.Token.Words

/-! Names, reserved words and marks that are printed with blanks between them are read back, as long
as no brace is open. -/
namespace ModuleBundler
open ModuleBundler.Text

namespace Text
variable {c : Char} {rs : List (Nat × Nat)}

/-- The text is a name that is written without escapes, and no reserved word. -/
def isPlainName (text : String) : Bool :=
  text.toList.head?.any isNameStart && text.toList.all isNamePart
    && (Keyword.ofText? text).isNone

/-- The code points with which names start. -/
def nameStartRanges : List (Nat × Nat) :=
  [(0x24, 0x24), (0x41, 0x5a), (0x5c, 0x5c), (0x5f, 0x5f), (0x61, 0x7a)] ++ alphabeticRanges

theorem covered_of_isNameStart (h : isNameStart c = true) : covered nameStartRanges c = true := by
  rw [nameStartRanges, covered_append, Bool.or_eq_true]
  simp only [isNameStart, isLetter, Bool.or_eq_true, Bool.and_eq_true, beq_iff_eq] at h
  rcases h with ((rfl | rfl) | rfl) | h | ⟨-, h⟩
  · exact .inl (by decide)
  · exact .inl (by decide)
  · exact .inl (by decide)
  · have halpha : c.isAlpha = (decide ('A'.val ≤ c.val ∧ c.val ≤ 'Z'.val)
        || decide ('a'.val ≤ c.val) && decide (c.val ≤ 'z'.val)) := rfl
    simp only [halpha, Bool.or_eq_true, Bool.and_eq_true, decide_eq_true_eq,
      UInt32.le_iff_toNat_le] at h
    change (65 ≤ c.toNat ∧ c.toNat ≤ 90) ∨ (97 ≤ c.toNat ∧ c.toNat ≤ 122) at h
    simp only [covered_iff, List.mem_cons, List.not_mem_nil, or_false]
    rcases h with h | h
    · exact .inl ⟨(0x41, 0x5a), by simp, h⟩
    · exact .inl ⟨(0x61, 0x7a), by simp, h⟩
  · exact .inr h

/-- Characters in other ranges start no name. -/
theorem not_isNameStart (hr : ∀ r ∈ rs, ∀ q ∈ nameStartRanges, r.2 < q.1 ∨ q.2 < r.1)
    (h : covered rs c = true) : isNameStart c = false := by
  rw [Bool.eq_false_iff]
  intro hc
  obtain ⟨q, hq, hc⟩ := (covered_iff _ _).mp (covered_of_isNameStart hc)
  obtain ⟨r, hmem, h⟩ := (covered_iff _ _).mp h
  have := hr r hmem q hq
  omega

theorem not_isNameStart_of_isDigit (h : c.isDigit = true) : isNameStart c = false := by
  simp only [Char.isDigit, Bool.and_eq_true, decide_eq_true_eq, UInt32.le_iff_toNat_le] at h
  have hc : 48 ≤ c.toNat ∧ c.toNat ≤ 57 := h
  have hcovered : covered [(48, 57)] c = true := by simp [covered, hc]
  exact not_isNameStart (by decide +kernel) hcovered

theorem not_isBlank_of_isNameStart (h : isNameStart c = true) : isBlank c = false := by
  rw [Bool.eq_false_iff]
  intro hb
  simp only [isBlank, isWhiteSpace, Bool.or_eq_true, beq_iff_eq] at hb
  rcases hb with (rfl | hb) | rfl
  · exact absurd h (by decide)
  · rw [not_isNameStart (by decide +kernel) hb] at h
    cases h
  · exact absurd h (by decide +kernel)

end Text

namespace Lexeme
variable {c : Char} {w : List Char} {ends : Bool}

/-- A character that starts a name starts nothing else. -/
theorem plain_name (hc : isNameStart c = true) : plain ends c w = name (c :: w) := by
  have hq : c ∉ ['"', '\'', '`'] := by
    intro h
    rcases h with _ | ⟨_, _ | ⟨_, _ | ⟨_, ⟨⟩⟩⟩⟩ <;> exact absurd hc (by decide)
  have hd : c.isDigit = false := by
    rw [Bool.eq_false_iff]
    intro h
    rw [not_isNameStart_of_isDigit h] at hc
    cases hc
  simp only [List.mem_cons, List.not_mem_nil, or_false, not_or] at hq
  simp [plain, hq, hd, hc]

/-- No operator or delimiter starts as a text, a number or a name does, or as a comment. -/
theorem starts_chars {p : Punctuator} (hp : p.chars = c :: w) :
    c ∉ ['"', '\'', '`', '#'] ∧ c.isDigit = false ∧ isNameStart c = false ∧
      w.head?.any Char.isDigit = false ∧ (c = '/' → w.head? ≠ some '/' ∧ w.head? ≠ some '*') ∧
      isBlank c = false := by
  have h (q : Punctuator) : q.chars.head?.all fun c => c ∉ ['"', '\'', '`', '#'] ∧
      c.isDigit = false ∧ isNameStart c = false ∧ q.chars.tail.head?.any Char.isDigit = false ∧
      (c = '/' → q.chars.tail.head? ≠ some '/' ∧ q.chars.tail.head? ≠ some '*') ∧
      isBlank c = false := by
    cases q <;> decide
  have hp' := h p
  rwa [hp, List.head?_cons, Option.all_some, decide_eq_true_iff] at hp'

/-- An operator or delimiter is read from its own text; a slash needs an operand before it. -/
theorem plain_chars {p : Punctuator} (hp : p.chars = c :: w) (hs : c = '/' → ends = true) :
    plain ends c w = verbatim (.punct p) (c :: w) := by
  obtain ⟨hq, hd, hn, hw, hc, -⟩ := starts_chars hp
  have hmark : mark c w = verbatim (.punct p) (c :: w) := by
    rw [mark, ← hp, punctuator?_chars]
  simp only [List.mem_cons, List.not_mem_nil, or_false, not_or] at hq
  simp only [plain, hq, hd, hn, hw, hmark, or_self, if_false, Bool.false_eq_true, and_false]
  split
  · next h => rw [if_neg (hc h).2, if_pos (hs h)]
  · rfl

theorem nameParts_plain {cs : List Char} (h : cs.all isNamePart = true) :
    Escape.nameParts cs = cs.map fun c => (c, 1) := by
  induction cs with
  | nil => rw [Escape.nameParts, List.map_nil]
  | cons c cs ih =>
    obtain ⟨hc, hcs⟩ := Bool.and_eq_true_iff.mp h
    rw [Escape.nameParts_cons, if_pos hc, ih hcs, List.map_cons]
    rintro v rfl
    exact absurd hc (by decide)

theorem nameSize_plain (cs : List Char) : nameSize (cs.map fun c => (c, 1)) = cs.length := by
  induction cs with
  | nil => rfl
  | cons c cs ih =>
    rw [List.map_cons, nameSize, List.foldr_cons, ← nameSize, ih, List.length_cons, Nat.add_comm]

/-- Characters of names that are not escaped are a name or a reserved word. -/
theorem name_plain (h : (c :: w).all isNamePart = true) :
    name (c :: w) = verbatim (((Keyword.ofText? (String.ofList (c :: w))).map .keyword).getD
      .identifier) (c :: w) := by
  have hb : (c :: w).contains '\\' = false := by
    rw [List.contains_eq_any_beq, List.any_eq_false]
    intro d hd hb
    obtain rfl := beq_iff_eq.mp hb
    exact absurd (List.all_eq_true.mp h _ hd) (by decide)
  have hp : (((c :: w).map fun c => (c, 1)).map Prod.fst) = c :: w := by
    rw [List.map_map]
    exact List.map_id _
  simp only [name, nameParts_plain h, nameSize_plain, hp, List.take_length, hb]
  cases Keyword.ofText? (String.ofList (c :: w)) <;> rfl

end Lexeme

/-- The end mark on the line of the token before it. -/
def Token.finish : Token := ⟨.eof, .nowhere, "", false⟩

/-- A scanner reads the token from its own text where no brace is open, after the end of an
expression or elsewhere. -/
inductive Token.Legible : Bool → Token → Prop where
  | name {ends : Bool} {text : String} (plain : isPlainName text = true) :
      Legible ends (.name text)
  | word {ends : Bool} (k : Keyword) : Legible ends (.word k)
  | mark {ends : Bool} {p : Punctuator} (brace : p ≠ .lBrace)
      (slash : p.chars.head? = some '/' → ends = true) : Legible ends (.mark p)

/-- Tokens each of which a scanner reads from its own text after the ones before it. -/
inductive Printable : Bool → List Token → Prop where
  | nil {ends : Bool} : Printable ends []
  | cons {ends : Bool} {t : Token} {ts : List Token} :
      t.Legible ends → Printable t.kind.endsExpression ts → Printable ends (t :: ts)

theorem Printable.append {ends : Bool} {ts us : List Token} (h : Printable ends ts)
    (hu : Printable (endsAfter ends ts) us) : Printable ends (ts ++ us) := by
  induction h with
  | nil => exact hu
  | cons ht _ ih => exact .cons ht (ih hu)

/-- A name is no reserved word. -/
theorem Text.isPlainName_cons {text : String} (h : isPlainName text = true) :
    ∃ c w, text.toList = c :: w ∧ isNameStart c = true ∧ (c :: w).all isNamePart = true ∧
      Keyword.ofText? text = none := by
  simp only [isPlainName, Bool.and_eq_true, Option.isNone_iff_eq_none] at h
  obtain ⟨⟨hs, hp⟩, hk⟩ := h
  obtain ⟨c, w, ht, hc⟩ := head?_any_eq_true hs
  exact ⟨c, w, ht, hc, ht ▸ hp, hk⟩

/-- A reserved word has the shape of a name. -/
theorem Keyword.text_cons (k : Keyword) :
    ∃ c w, k.text.toList = c :: w ∧ isNameStart c = true ∧ (c :: w).all isNamePart = true := by
  have h : k.text.toList.head?.any isNameStart = true ∧ k.text.toList.all isNamePart = true := by
    cases k <;> decide
  obtain ⟨c, w, ht, hc⟩ := head?_any_eq_true h.1
  exact ⟨c, w, ht, hc, ht ▸ h.2⟩

namespace Scanner
variable {s : Scanner} {c : Char} {w : List Char}

/-- Where no brace is open, a closing brace closes none. -/
theorem lexeme_outside (hb : s.braces = []) :
    s.lexeme c w = Lexeme.plain (s.previous.any TokenKind.endsExpression) c w := by
  simp [lexeme, hb]

theorem reads_verbatim {kind : TokenKind} (hg : Lexeme.gap (c :: w) = [])
    (hk : kind ≠ .error) (h : s.lexeme c w = Lexeme.verbatim kind (c :: w)) : s.Reads c w :=
  ⟨hg, by rwa [h], by rw [h]; rfl⟩

/-- A name or a reserved word is read from its own text. -/
theorem reads_plainName (kind : TokenKind) (hb : s.braces = []) (hc : isNameStart c = true)
    (hw : (c :: w).all isNamePart = true) (hk : kind ≠ .error)
    (ht : ((Keyword.ofText? (String.ofList (c :: w))).map .keyword).getD .identifier = kind) :
    s.Reads c w ∧ s.lexeme c w = Lexeme.verbatim kind (c :: w) := by
  have hl : s.lexeme c w = Lexeme.verbatim kind (c :: w) := by
    rw [lexeme_outside hb, Lexeme.plain_name hc, Lexeme.name_plain hw, ht]
  have hs (d : Char) (v : List Char) (h : c = '/') : w = d :: v → d ≠ '/' ∧ d ≠ '*' := by
    rw [h] at hc
    exact absurd hc (by decide)
  have hg := (gap_eq_nil hs).mpr (not_isBlank_of_isNameStart hc)
  exact ⟨reads_verbatim hg hk hl, hl⟩

theorem reads_legible {t : Token} (hb : s.braces = [])
    (h : t.Legible (s.previous.any TokenKind.endsExpression)) :
    ∃ c w, t.value.toList = c :: w ∧ s.Reads c w ∧ s.lexeme c w = Lexeme.verbatim t.kind (c :: w)
      ∧ s.bracesAfter c t.kind = [] := by
  cases h with
  | @name text plain =>
    obtain ⟨c, w, ht, hc, hw, hk⟩ := isPlainName_cons plain
    obtain ⟨hr, hl⟩ := reads_plainName .identifier hb hc hw (by rintro ⟨⟩)
      (by rw [← ht, String.ofList_toList, hk]; rfl)
    exact ⟨c, w, ht, hr, hl, by simp [bracesAfter, hb, Token.name]⟩
  | word k =>
    obtain ⟨c, w, ht, hc, hw⟩ := k.text_cons
    obtain ⟨hr, hl⟩ := reads_plainName (.keyword k) hb hc hw (by rintro ⟨⟩)
      (by rw [← ht, String.ofList_toList, Keyword.ofText?_text]; rfl)
    exact ⟨c, w, ht, hr, hl, by simp [bracesAfter, hb, Token.word]⟩
  | @mark p brace slash =>
    obtain ⟨c, w, ht⟩ : ∃ c w, p.chars = c :: w :=
      List.exists_cons_of_ne_nil (by cases p <;> decide)
    obtain ⟨-, -, -, -, hs, hblank⟩ := Lexeme.starts_chars ht
    have hg : Lexeme.gap (c :: w) = [] := by
      refine (gap_eq_nil fun d v hc hw => ?_).mpr hblank
      have := hs hc
      simp_all
    have hl : s.lexeme c w = Lexeme.verbatim (.punct p) (c :: w) := by
      rw [lexeme_outside hb, Lexeme.plain_chars ht fun hc => slash (by rw [ht, hc]; rfl)]
    refine ⟨c, w, ht, reads_verbatim hg (by rintro ⟨⟩) hl, hl, ?_⟩
    cases p <;> simp_all [bracesAfter, Token.mark]

end Scanner

theorem Spells.legible {ends : Bool} {t : Token} {ts : List Token} {g x : List Char}
    (hg : g = [] ∨ g = [' ']) (ht : t.Legible ends) (hx : Parted x)
    (h : Spells [] t.kind.endsExpression x ts) :
    Spells [] ends (g ++ (t.value.toList ++ x)) (t :: ts) := by
  intro s hb he
  subst he
  obtain ⟨c, w, hv, hr, hl, ha⟩ := Scanner.reads_legible hb ht
  have hrest : Spells (s.bracesAfter c (s.lexeme c w).kind) (s.lexeme c w).kind.endsExpression x
      ts := by
    rw [hl]
    exact ha.symm ▸ h
  have hs := Spells.word hg hr hx hrest s rfl rfl
  have htoken : (⟨t.kind, .nowhere, t.value, false⟩ : Token) = t := by cases ht <;> rfl
  rw [hl, Lexeme.verbatim, ← hv, String.ofList_toList, htoken] at hs
  rwa [hv]

namespace Printable
variable {ends : Bool} {t : Token} {ts us : List Token} {g x : List Char}

/-- The texts of tokens with single blanks between them. -/
def text (ts : List Token) : List Char := [' '].intercalate (ts.map fun t => t.value.toList)

theorem text_singleton (t : Token) : text [t] = t.value.toList := by simp [text]

theorem text_cons {u : Token} : text (t :: u :: ts) = t.value.toList ++ ' ' :: text (u :: ts) := by
  simp [text]

/-- Tokens that are read from their own texts are read from these with blanks between them. -/
theorem spells (h : Printable ends ts) (hts : ts ≠ []) (hg : g = [] ∨ g = [' ']) (hx : Parted x)
    (hu : Spells [] (endsAfter ends ts) x us) :
    Spells [] ends (g ++ (text ts ++ x)) (ts ++ us) := by
  induction h generalizing g with
  | nil => exact absurd rfl hts
  | @cons ends t ts ht _ ih =>
    cases ts with
    | nil =>
      rw [text_singleton]
      exact .legible hg ht hx hu
    | cons u ts =>
      rw [text_cons, List.append_assoc]
      exact .legible hg ht (.blank _) (ih (List.cons_ne_nil u ts) (.inr rfl) hu)

theorem hashbang (h : Printable false ts) (hts : ts ≠ []) (hx : Parted x) :
    ModuleBundler.hashbang (text ts ++ x) = [] := by
  cases h with
  | nil => exact absurd rfl hts
  | @cons _ t ts ht _ =>
    obtain ⟨c, w, hv, hr, -⟩ := Scanner.reads_legible (s := ⟨0, none, []⟩) rfl ht
    cases ts with
    | nil =>
      rw [text_singleton, hv]
      exact hr.hashbang hx
    | cons u ts =>
      rw [text_cons, List.append_assoc, hv]
      exact hr.hashbang (.blank _)

end Printable

end ModuleBundler
