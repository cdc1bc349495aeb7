import Mathlib.Data.List.TakeWhile
import ModuleBundler.Proofs.Token.Pasted

/-! Texts that are written with the escapes of their code units: what is read of them. -/
namespace ModuleBundler
open ModuleBundler.Text

/-- The code units of a character in UTF-16: its number, or a pair of surrogates. -/
def Text.utf16 (c : Char) : List Nat :=
  if c.toNat < 0x10000 then [c.toNat]
  else [0xd800 + (c.toNat - 0x10000) / 0x400, 0xdc00 + (c.toNat - 0x10000) % 0x400]

namespace Escape

/-- Each code unit is written with a backslash, a `u` and four hexadecimal digits. -/
inductive Units : List Char → List Nat → Prop
  | nil : Units [] []
  | cons {digits text : List Char} {units : List Nat} (four : digits.length = 4)
      (hex : ∀ d ∈ digits, isDigitOf 16 d = true) (rest : Units text units) :
      Units ('\\' :: 'u' :: (digits ++ text)) (hexValue digits :: units)

/-- What an escaped character is read as: the halves of a pair denote nothing on their own. -/
def readBack (c : Char) : List Char := if c.toNat < 0x10000 then [c] else ['\ufffd', '\ufffd']

/-- The escape of a code unit, with small letters. -/
def ofUnit (n : Nat) : List Char :=
  ['\\', 'u', hexDigit (n / 0x1000), hexDigit (n / 0x100 % 0x10), hexDigit (n / 0x10 % 0x10),
    hexDigit (n % 0x10)]

variable {text digits : List Char} {units : List Nat} {d m : Char}

theorem charOfCode_toNat (c : Char) : charOfCode c.toNat = c := by
  have hv : c.toNat.isValidChar := c.valid
  rw [charOfCode, if_pos hv, Char.ofNat_toNat]

theorem charOfCode_surrogate {n : Nat} (h : 0xd800 ≤ n) (h' : n < 0xe000) :
    charOfCode n = '\ufffd' := by
  rw [charOfCode, if_neg]
  rintro (hn | hn) <;> omega

theorem toNat_lt (c : Char) : c.toNat < 0x110000 := by
  have hv : c.toNat.isValidChar := c.valid
  rcases hv with h | h <;> omega

theorem map_charOfCode_utf16 (c : Char) : (utf16 c).map charOfCode = readBack c := by
  unfold utf16 readBack
  split
  · rw [List.map_singleton, charOfCode_toNat]
  · have hlt := toNat_lt c
    rw [List.map_cons, List.map_singleton, charOfCode_surrogate (by omega) (by omega),
      charOfCode_surrogate (by omega) (by omega)]

/-- The characters that are read are those of the text, but for those beyond the first plane. -/
theorem flatMap_readBack_eq_self {cs : List Char} :
    cs.flatMap readBack = cs ↔ ∀ c ∈ cs, c.toNat < 0x10000 := by
  induction cs with
  | nil => simp
  | cons c cs ih =>
    rw [List.flatMap_cons, List.forall_mem_cons]
    by_cases hc : c.toNat < 0x10000
    · simp [readBack, hc, ih]
    · rw [readBack, if_neg hc]
      refine ⟨fun h => ?_, fun h => absurd h.1 hc⟩
      rw [← (List.cons.inj h).1] at hc
      exact absurd (by decide) hc

theorem hexDigit_lt : ∀ n < 16, isDigitOf 16 (hexDigit n) = true
    ∧ (digitValue? 16 (hexDigit n)).getD 0 = n := by
  decide

/-- Every text can be written so. -/
theorem units_ofUnit {ns : List Nat} (h : ∀ n ∈ ns, n < 0x10000) :
    Units (ns.flatMap ofUnit) ns := by
  induction ns with
  | nil => exact .nil
  | cons n ns ih =>
    obtain ⟨hn, hns⟩ := List.forall_mem_cons.mp h
    have h₁ := hexDigit_lt (n / 0x1000) (by omega)
    have h₂ := hexDigit_lt (n / 0x100 % 0x10) (by omega)
    have h₃ := hexDigit_lt (n / 0x10 % 0x10) (by omega)
    have h₄ := hexDigit_lt (n % 0x10) (by omega)
    have hvalue : hexValue [hexDigit (n / 0x1000), hexDigit (n / 0x100 % 0x10),
        hexDigit (n / 0x10 % 0x10), hexDigit (n % 0x10)] = n := by
      simp only [hexValue, List.foldl_cons, List.foldl_nil, h₁.2, h₂.2, h₃.2, h₄.2]
      omega
    have hhex : ∀ d ∈ [hexDigit (n / 0x1000), hexDigit (n / 0x100 % 0x10),
        hexDigit (n / 0x10 % 0x10), hexDigit (n % 0x10)], isDigitOf 16 d = true := by
      simp [h₁, h₂, h₃, h₄]
    have hunits := Units.cons rfl hhex (ih hns)
    rwa [hvalue] at hunits

theorem utf16_lt (c : Char) : ∀ n ∈ utf16 c, n < 0x10000 := by
  have hlt := toNat_lt c
  unfold utf16
  split
  · simpa
  · intro n hn
    rcases List.mem_pair.mp hn with hn | hn <;> omega

/-- A digit is none of the characters that end a text or start an escape. -/
theorem ne_of_hex (h : isDigitOf 16 d = true) (hm : isDigitOf 16 m = false) : d ≠ m := by
  rintro rfl
  rw [h] at hm
  cases hm

theorem unicode_four (hl : digits.length = 4) (hd : ∀ d ∈ digits, isDigitOf 16 d = true)
    (cs : List Char) : unicode (digits ++ cs) = (charOfCode (hexValue digits), 4) := by
  have hrun : hexRun 4 (digits ++ cs) = digits := by
    rw [hexRun, ← hl, List.take_left, List.takeWhile_eq_self_iff.mpr hd]
  obtain ⟨d, ds, rfl⟩ := List.exists_cons_of_length_pos (l := digits) (by omega)
  have hbrace : d ≠ '\x7b' := ne_of_hex (hd d List.mem_cons_self) (by decide)
  rw [List.cons_append] at hrun ⊢
  rw [unicode, hrun, hl]
  exact fun _ h => hbrace (List.cons.inj h).1

theorem decode_units (h : Units text units) : decode text = units.map charOfCode := by
  induction h with
  | nil => exact decode_nil
  | @cons digits text units four hex _ ih =>
    have hdrop : (digits ++ text).drop 4 = text := by rw [← four, List.drop_left]
    rw [decode_escape, read, unicode_four four hex, Nat.add_comm, List.drop_succ_cons, hdrop, ih]
    rfl

end Escape

namespace Lexeme
variable {text digits : List Char} {units : List Nat} {m : Char}

/-- Escapes do not close the text that they stand in. -/
theorem stringBody_units (h : Escape.Units text units) (hm : m = '"' ∨ m = '\'')
    (rest : List Char) : stringBody m (text ++ m :: rest) = text := by
  have hmark : isDigitOf 16 m = false := by rcases hm with rfl | rfl <;> decide
  induction h with
  | nil =>
    rw [List.nil_append, stringBody_plain (by rcases hm with rfl | rfl <;> decide),
      if_pos (.inl rfl)]
  | @cons digits text units four hd _ ih =>
    have hplain : ∀ d ∈ digits, d ≠ m ∧ d ≠ '\\' ∧ d ≠ '\n' ∧ d ≠ '\r' := fun d hm =>
      have hne {e : Char} (he : isDigitOf 16 e = false) : d ≠ e := Escape.ne_of_hex (hd d hm) he
      ⟨hne hmark, hne (by decide), hne (by decide), hne (by decide)⟩
    rw [List.cons_append, List.cons_append, List.append_assoc, stringBody,
      stringBody_plain_append hplain, ih]
    exact fun _ h => absurd h (by decide)

theorem templateBody_plain_append {u : List Char}
    (hu : ∀ c ∈ u, c ≠ '`' ∧ c ≠ '\\' ∧ c ≠ '$') (cs : List Char) :
    templateBody (u ++ cs) = u ++ templateBody cs := by
  induction u with
  | nil => rfl
  | cons c u ih =>
    obtain ⟨⟨hmark, hescape, hdollar⟩, hu⟩ := List.forall_mem_cons.mp hu
    rw [List.cons_append, templateBody_plain hescape fun _ h => absurd h hdollar, if_neg hmark,
      ih hu, List.cons_append]

theorem templateBody_units (h : Escape.Units text units) (rest : List Char) :
    templateBody (text ++ '`' :: rest) = text := by
  induction h with
  | nil =>
    rw [List.nil_append, templateBody_plain (by decide) fun _ h => absurd h (by decide), if_pos rfl]
  | @cons digits text units four hd _ ih =>
    have hplain : ∀ d ∈ digits, d ≠ '`' ∧ d ≠ '\\' ∧ d ≠ '$' := fun d hm =>
      have hne {e : Char} (he : isDigitOf 16 e = false) : d ≠ e := Escape.ne_of_hex (hd d hm) he
      ⟨hne (by decide), hne (by decide), hne (by decide)⟩
    rw [List.cons_append, List.cons_append, List.append_assoc, templateBody,
      templateBody_plain_append hplain, ih]

/-- What a text between two marks is as a token. -/
def textKind (m : Char) : TokenKind := if m = '`' then .noSubstitutionTemplate else .stringLiteral

theorem plain_units {divides : Bool} (h : Escape.Units text units)
    (hm : m = '"' ∨ m = '\'' ∨ m = '`') (rest : List Char) :
    plain divides m (text ++ m :: rest)
      = ⟨textKind m, text.length + 2, String.ofList (units.map charOfCode)⟩ := by
  rw [← or_assoc] at hm
  rcases hm with hm | rfl
  · have hkind : textKind m = .stringLiteral := by rcases hm with rfl | rfl <;> rfl
    rw [plain, if_pos hm, hkind]
    simp only [string, stringBody_units h hm, List.drop_left, Escape.decode_units h,
      List.head?_cons, if_pos]
  · rw [plain, if_neg (by decide), if_pos rfl]
    simp only [template, templateBody_units h, List.drop_left, Escape.decode_units h]
    rfl

end Lexeme

/-- Every text can be written with escapes for all its code units, and is then read as one string,
or as a template. That denotes the text if its characters are of the first plane: of another one,
for which a pair of escapes stands, each half is read on its own and denotes nothing. -/
theorem escapes_denote (v : String) :
    (∃ text, Escape.Units text (v.toList.flatMap utf16)) ∧
    (∀ text, Escape.Units text (v.toList.flatMap utf16) → ∀ m, m = '"' ∨ m = '\'' ∨ m = '`' →
      ∀ (s : Scanner) (rest : List Char),
        let stop := s.offset + byteSize (m :: (text ++ [m]))
        s.tokens (m :: (text ++ m :: rest)) =
          ⟨Lexeme.textKind m, ⟨s.offset, stop⟩, String.ofList (v.toList.flatMap Escape.readBack),
              false⟩ ::
            Scanner.tokens ⟨stop, some (Lexeme.textKind m), s.braces⟩ rest) ∧
    (String.ofList (v.toList.flatMap Escape.readBack) = v ↔ ∀ c ∈ v.toList, c.toNat < 0x10000) := by
  have hvalue : (v.toList.flatMap utf16).map charOfCode = v.toList.flatMap Escape.readBack := by
    rw [List.map_flatMap]
    exact List.flatMap_congr fun c _ => Escape.map_charOfCode_utf16 c
  refine ⟨⟨_, Escape.units_ofUnit fun n hn => ?_⟩, fun text h m hm s rest => ?_, ?_⟩
  · obtain ⟨c, -, hc⟩ := List.mem_flatMap.mp hn
    exact Escape.utf16_lt c n hc
  · have hlexeme : s.lexeme m ((text ++ [m]) ++ rest) = ⟨Lexeme.textKind m,
        (text ++ [m]).length + 1, String.ofList (v.toList.flatMap Escape.readBack)⟩ := by
      rw [Scanner.lexeme, if_neg (by rcases hm with rfl | rfl | rfl <;> simp), List.append_assoc]
      simpa [hvalue] using Lexeme.plain_units h hm rest
    have htokens := Scanner.tokens_closed (by rcases hm with rfl | rfl | rfl <;> decide)
      (by rcases hm with rfl | rfl | rfl <;> rfl) hlexeme
    rwa [List.append_assoc] at htokens
  · rw [← Escape.flatMap_readBack_eq_self, ← String.toList_inj, String.toList_ofList]

example : (tokenize "'\\u006d\\uD83D\\ude00'").map (·.value) = ["m\ufffd\ufffd", ""] := by
  decide +kernel

end ModuleBundler
