import Mathlib.Data.List.TakeWhile
import ModuleBundler.Proofs.Token.Pasted
import ModuleBundler.Token.Number

/-! What number tokens say: each is a decimal number, or the mark of a radix with digits behind it,
and has the value of that. -/
namespace ModuleBundler
open ModuleBundler.Text

namespace Number

/-- Decimal digits, at least one. -/
structure Digits (cs : List Char) : Prop where
  ne_nil : cs ≠ []
  isDigit : ∀ c ∈ cs, c.isDigit = true

/-- The letter that announces a radix behind a zero. -/
inductive Announces : Char → Nat → Prop
  | hexadecimal : Announces 'x' 16
  | octal : Announces 'o' 8
  | binary : Announces 'b' 2

/-- The end of a decimal number and the power of ten that it denotes: nothing, or a mark, perhaps a
sign, and digits. -/
inductive Power : List Char → Int → Prop
  | absent : Power [] 0
  | unsigned {mark : Char} {digits : List Char} (marked : mark = 'e' ∨ mark = 'E')
      (written : Digits digits) : Power (mark :: digits) (digitsValue digits)
  | positive {mark : Char} {digits : List Char} (marked : mark = 'e' ∨ mark = 'E')
      (written : Digits digits) : Power (mark :: '+' :: digits) (digitsValue digits)
  | negative {mark : Char} {digits : List Char} (marked : mark = 'e' ∨ mark = 'E')
      (written : Digits digits) : Power (mark :: '-' :: digits) (-(digitsValue digits : Int))

/-- A decimal number and what it denotes: digits, perhaps a point, behind which there may be more
digits, and perhaps an exponent. -/
inductive Denotes : List Char → Decimal → Prop
  | integer {whole power : List Char} {e : Int} (written : Digits whole) (ends : Power power e) :
      Denotes (whole ++ power) ⟨digitsValue whole, e⟩
  | fraction {whole decimals power : List Char} {e : Int} (written : Digits whole)
      (more : ∀ c ∈ decimals, c.isDigit = true) (ends : Power power e) :
      Denotes (whole ++ '.' :: (decimals ++ power))
        ⟨digitsValue (whole ++ decimals), e - decimals.length⟩

/-- What a number token says: digits behind the mark of their radix, or a decimal number. -/
inductive Numeral : List Char → Prop
  | radix {mark : Char} {radix : Nat} {digits : List Char} (announced : Announces mark radix)
      (all : ∀ d ∈ digits, isDigitOf radix d = true) : Numeral ('0' :: mark :: digits)
  | decimal {text : List Char} {d : Decimal} (denotes : Denotes text d) : Numeral text

variable {whole decimals power digits text : List Char} {e : Int} {d : Decimal} {c : Char}

theorem isDigit_ne (h : c.isDigit = true) {m : Char} (hm : m.isDigit = false) : c ≠ m := by
  rintro rfl
  rw [h] at hm
  cases hm

theorem Digits.not_bad (h : Digits digits) :
    (digits.isEmpty || digits.any fun c => !c.isDigit) = false := by
  have hany : digits.any (fun c => !c.isDigit) = false :=
    List.any_eq_false.mpr fun c hc => by simp [h.isDigit c hc]
  rw [hany, List.isEmpty_eq_false_iff.mpr h.ne_nil]
  rfl

theorem exponent?_digits (h : Digits digits) :
    exponent? digits = some (digitsValue digits : Int) := by
  obtain ⟨d, ds, rfl⟩ := List.exists_cons_of_ne_nil h.ne_nil
  have hd := h.isDigit d List.mem_cons_self
  unfold exponent?
  split
  next negative rest hsign =>
  split at hsign
  · next heq => exact absurd (List.cons.inj heq).1 (isDigit_ne hd rfl)
  · next heq => exact absurd (List.cons.inj heq).1 (isDigit_ne hd rfl)
  · cases hsign
    rw [h.not_bad]
    rfl

/-- An exponent that is written is read with the power that it denotes. -/
theorem exponent?_of_power {mark : Char} (h : Power (mark :: text) e) :
    exponent? text = some e := by
  cases h with
  | unsigned _ hd => exact exponent?_digits hd
  | positive _ hd => simp [exponent?, hd.not_bad]
  | negative _ hd => simp [exponent?, hd.not_bad]

theorem Power.head (h : Power power e) : ∀ c ∈ power.head?, c = 'e' ∨ c = 'E' := by
  cases h with
  | absent => simp
  | unsigned hm _ => simpa using hm
  | positive hm _ => simpa using hm
  | negative hm _ => simpa using hm

/-- Digits are read up to what is no digit. -/
theorem takeWhile_digits (hd : ∀ c ∈ digits, c.isDigit = true)
    (hr : ∀ c ∈ text.head?, c.isDigit = false) :
    (digits ++ text).takeWhile Char.isDigit = digits ∧
      (digits ++ text).dropWhile Char.isDigit = text := by
  rw [List.takeWhile_append_of_pos hd, List.dropWhile_append_of_pos hd]
  cases text with
  | nil => simp
  | cons c text =>
    have hc := hr c rfl
    simp [hc]

theorem Power.takeWhile_digits (h : Power power e) (hd : ∀ c ∈ digits, c.isDigit = true) :
    (digits ++ power).takeWhile Char.isDigit = digits ∧
      (digits ++ power).dropWhile Char.isDigit = power := by
  refine Number.takeWhile_digits hd fun c hc => ?_
  rcases h.head c hc with rfl | rfl <;> rfl

/-- The value of digits of which some stand behind a point, with the exponent behind them. -/
theorem Power.decimal (h : Power power e) (n k : Nat) :
    (match power with
      | [] => some (⟨n, -(k : Int)⟩ : Decimal)
      | mark :: r =>
        if mark == 'e' || mark == 'E' then (exponent? r).map fun e => ⟨n, e - k⟩ else none)
      = some ⟨n, e - k⟩ := by
  cases power with
  | nil =>
    cases h
    simp
  | cons mark r =>
    have hm := h.head mark rfl
    simp [hm, exponent?_of_power h]

/-- Decimal numbers are read, and with the value that they denote. -/
theorem decimal?_of_denotes (h : Denotes text d) : decimal? text = some d := by
  cases h with
  | @integer whole power e hw he =>
    obtain ⟨htake, hdrop⟩ := he.takeWhile_digits hw.isDigit
    have hne := List.isEmpty_eq_false_iff.mpr hw.ne_nil
    unfold decimal?
    simp only [htake, List.drop_left]
    split
    · -- no exponent starts with a point
      rcases he.head '.' rfl with h | h <;> cases h
    · dsimp only
      rw [hne, Bool.false_and, if_neg Bool.false_ne_true, List.append_nil]
      exact (he.decimal (digitsValue whole) 0).trans (by simp)
  | @fraction whole decimals power e hw hd he =>
    have hpoint : ∀ c ∈ ('.' :: (decimals ++ power)).head?, c.isDigit = false := by simp
    obtain ⟨htake, -⟩ := takeWhile_digits hw.isDigit hpoint
    obtain ⟨hdecimals, hpower⟩ := he.takeWhile_digits hd
    have hne := List.isEmpty_eq_false_iff.mpr hw.ne_nil
    unfold decimal?
    simp only [htake, List.drop_left, hdecimals, hpower]
    rw [hne, Bool.false_and, if_neg Bool.false_ne_true]
    exact he.decimal (digitsValue (whole ++ decimals)) decimals.length

/-- The characters of decimal numbers: digits, points, and those of exponents. -/
def IsDecimal (c : Char) : Prop := c.isDigit = true ∨ c ∈ ['.', 'e', 'E', '+', '-']

theorem Power.chars (h : Power power e) : ∀ c ∈ power, IsDecimal c := by
  have hmark {mark : Char} (hm : mark = 'e' ∨ mark = 'E') : IsDecimal mark := by
    rcases hm with rfl | rfl <;> exact .inr (by decide)
  cases h with
  | absent => simp
  | unsigned hm hd => exact List.forall_mem_cons.mpr ⟨hmark hm, fun c hc => .inl (hd.isDigit c hc)⟩
  | positive hm hd | negative hm hd =>
    refine List.forall_mem_cons.mpr ⟨hmark hm, List.forall_mem_cons.mpr ⟨.inr (by decide), ?_⟩⟩
    exact fun c hc => .inl (hd.isDigit c hc)

/-- No separator and no mark of a radix stands in a decimal number. -/
theorem Denotes.chars (h : Denotes text d) : ∀ c ∈ text, IsDecimal c := by
  cases h with
  | integer hw he =>
    exact List.forall_mem_append.mpr ⟨fun c hc => .inl (hw.isDigit c hc), he.chars⟩
  | fraction hw hd he =>
    refine List.forall_mem_append.mpr ⟨fun c hc => .inl (hw.isDigit c hc), ?_⟩
    refine List.forall_mem_cons.mpr ⟨.inr (by decide), ?_⟩
    exact List.forall_mem_append.mpr ⟨fun c hc => .inl (hd c hc), he.chars⟩

theorem radixDigits?_of_denotes (h : Denotes text d) : radixDigits? text = none := by
  unfold radixDigits?
  split
  · exact absurd (h.chars 'x' (by simp)) (by unfold IsDecimal; decide)
  · exact absurd (h.chars 'o' (by simp)) (by unfold IsDecimal; decide)
  · exact absurd (h.chars 'b' (by simp)) (by unfold IsDecimal; decide)
  · rfl

theorem value_of_denotes {text : String} (h : Denotes text.toList d) : value text = d.toFloat := by
  rw [value, radixDigits?_of_denotes h, decimal?_of_denotes h]

theorem value_of_announces {text : String} {mark : Char} {radix : Nat} (h : Announces mark radix)
    (ht : text.toList = '0' :: mark :: digits) : value text = ofRadix radix digits := by
  rw [value, ht]
  cases h <;> rfl

end Number

namespace Lexeme
open Number
variable {c mark : Char} {cs : List Char} {radix : Nat} {divides : Bool}

theorem isDigit_of_isDigitOf (h : isDigitOf 10 c = true) : c.isDigit = true := by
  have hlarge (n : Nat) : (some (n + 10)).filter (· < 10) = none := by
    rw [Option.filter_some, if_neg]
    simp only [decide_eq_true_eq]
    omega
  by_contra hd
  rw [isDigitOf, digitValue?, if_neg hd] at h
  split at h
  · rw [hlarge] at h
    cases h
  · split at h
    · rw [hlarge] at h
      cases h
    · cases h

theorem digitText_nil : digitText [] = [] := rfl

theorem digitText_cons (h : c ≠ '_') (cs : List Char) :
    digitText (c :: cs) = c :: digitText cs := by
  simp [digitText, h]

theorem digitText_append (cs ds : List Char) :
    digitText (cs ++ ds) = digitText cs ++ digitText ds := List.filter_append ..

/-- Without the underscores a run of digits holds nothing but digits. -/
theorem isDigitOf_digitRun (radix : Nat) (cs : List Char) :
    ∀ d ∈ digitText (digitRun radix cs), isDigitOf radix d = true := by
  intro d hd
  obtain ⟨hrun, hne⟩ := List.mem_filter.mp hd
  have hd := List.mem_takeWhile_imp hrun
  simpa [show d ≠ '_' by simpa using hne] using hd

theorem isDigit_digitRun (cs : List Char) : ∀ d ∈ digitText (digitRun 10 cs), d.isDigit = true :=
  fun d hd => isDigit_of_isDigitOf (isDigitOf_digitRun 10 cs d hd)

/-- A run that starts with a digit has one without the underscores as well. -/
theorem digits_digitRun (h : c.isDigit = true) (cs : List Char) :
    Digits (digitText (digitRun 10 (c :: cs))) := by
  refine ⟨?_, isDigit_digitRun _⟩
  rw [digitRun, List.takeWhile_cons_of_pos (by simp [isDigitOf_of_isDigit h]),
    digitText_cons (isDigit_ne h rfl)]
  exact List.cons_ne_nil _ _

theorem power_exponent (cs : List Char) : ∃ e, Power (digitText (exponent cs)) e := by
  unfold exponent
  split
  · next mark c cs =>
    split
    · next hm =>
      have hmark : mark ≠ '_' := by rcases hm with rfl | rfl <;> decide
      split
      · next hc =>
        rw [digitText_cons hmark]
        exact ⟨_, .unsigned hm (digits_digitRun hc cs)⟩
      · split
        · next hs =>
          obtain ⟨d, ds, rfl, hd⟩ := head?_any_eq_true hs.2
          have hdigits := digits_digitRun hd ds
          rcases hs.1 with rfl | rfl <;> rw [digitText_cons hmark, digitText_cons (by decide)]
          · exact ⟨_, .positive hm hdigits⟩
          · exact ⟨_, .negative hm hdigits⟩
        · exact ⟨0, .absent⟩
    · exact ⟨0, .absent⟩
  · exact ⟨0, .absent⟩

theorem fraction_cases (cs : List Char) :
    fraction cs = [] ∨ ∃ ds, fraction cs = '.' :: digitRun 10 ds := by
  unfold fraction
  split
  · exact .inr ⟨_, rfl⟩
  · exact .inl rfl

theorem numeral_decimalNumber (hc : c.isDigit = true)
    (hk : (decimalNumber (c :: cs)).kind = .numberLiteral) :
    Numeral (decimalNumber (c :: cs)).value.toList := by
  have hwhole := digits_digitRun hc cs
  simp only [decimalNumber] at hk ⊢
  generalize digitRun 10 (c :: cs) = whole at hk hwhole ⊢
  generalize (c :: cs).drop whole.length = rest at hk ⊢
  by_cases hn : rest.head? = some 'n'
  · rw [if_pos hn] at hk
    cases hk
  · obtain ⟨e, he⟩ := power_exponent (rest.drop (fraction rest).length)
    rw [if_neg hn, String.toList_ofList, digitText_append, digitText_append]
    rcases fraction_cases rest with hf | ⟨ds, hf⟩ <;> rw [hf] at he ⊢
    · rw [digitText_nil, List.append_nil]
      exact .decimal (.integer hwhole he)
    · rw [digitText_cons (by decide), List.append_assoc, List.cons_append]
      exact .decimal (.fraction hwhole (isDigit_digitRun ds) he)

theorem announces_of_radix? (h : radix? mark = some radix) : Announces mark.toLower radix := by
  unfold radix? at h
  split at h
  · next hm =>
    cases h
    rcases hm with rfl | rfl <;> exact .hexadecimal
  split at h
  · next hm =>
    cases h
    rcases hm with rfl | rfl <;> exact .octal
  split at h
  · next hm =>
    cases h
    rcases hm with rfl | rfl <;> exact .binary
  · cases h

theorem numeral_radixNumber (h : radix? mark = some radix) (cs : List Char) :
    Numeral (radixNumber radix mark cs).value.toList := by
  have hvalue : (radixNumber radix mark cs).value
      = String.ofList ('0' :: mark.toLower :: digitText (digitRun radix cs)) := by
    simp only [radixNumber]
    split <;> rfl
  rw [hvalue, String.toList_ofList]
  exact .radix (announces_of_radix? h) (isDigitOf_digitRun radix cs)

theorem numeral_pointNumber (cs : List Char) : Numeral (pointNumber cs).value.toList := by
  obtain ⟨e, he⟩ := power_exponent (cs.drop (digitRun 10 cs).length)
  have hzero : Digits ['0'] := ⟨by decide, by simp⟩
  simp only [pointNumber, String.toList_ofList, digitText_append]
  exact .decimal (.fraction hzero (isDigit_digitRun cs) he)

/-- Numbers start with a digit, or with a point that they have a zero put before. -/
theorem number_of_plain (h : (plain divides c cs).kind = .numberLiteral) :
    c.isDigit = true ∧ plain divides c cs = number (c :: cs) ∨
      plain divides c cs = pointNumber cs := by
  cases reads_plain divides c cs with
  | number hc hl _ => exact .inl ⟨hc, hl⟩
  | pointNumber hl => exact .inr hl
  | fault hk | string _ hk | privateName hk | regex hk => simp [hk] at h
  | template _ hk => rcases hk with hk | hk <;> simp [hk] at h
  | name _ hk => rcases hk with hk | ⟨word, hk⟩ <;> simp [hk] at h
  | mark p _ hl => simp [hl, verbatim] at h

theorem numeral_plain (h : (plain divides c cs).kind = .numberLiteral) :
    Numeral (plain divides c cs).value.toList := by
  rcases number_of_plain h with ⟨hc, hp⟩ | hp <;> rw [hp] at h ⊢
  · rcases number_cases (c :: cs) with hn | ⟨mark, radix, r, hr, hn⟩ <;> rw [hn] at h ⊢
    · exact numeral_decimalNumber hc h
    · exact numeral_radixNumber hr r
  · exact numeral_pointNumber cs

end Lexeme

theorem Scanner.numeral_lexeme {s : Scanner} {c : Char} {cs : List Char}
    (h : (s.lexeme c cs).kind = .numberLiteral) : Number.Numeral (s.lexeme c cs).value.toList := by
  unfold lexeme at h ⊢
  split
  · next hb =>
    rw [if_pos hb] at h
    rcases Lexeme.template_goesOn cs with hk | hk | hk <;> simp [hk] at h
  · next hb =>
    rw [if_neg hb] at h
    exact Lexeme.numeral_plain h

open Number in
/-- Every number token of every text has a value: it says digits of a radix behind their mark, and
has the value of these digits, or it says a decimal number, which is read with the value that it
denotes. Behind a mark there may be no digit. -/
theorem number_has_value {source : String} {t : Token} (ht : t ∈ tokenize source)
    (hk : t.kind = .numberLiteral) :
    (∃ mark radix digits, Announces mark radix ∧ (∀ d ∈ digits, isDigitOf radix d = true) ∧
      t.value.toList = '0' :: mark :: digits ∧ value t.value = ofRadix radix digits) ∨
    ∃ d, Denotes t.value.toList d ∧ decimal? t.value.toList = some d ∧
      value t.value = d.toFloat := by
  obtain ⟨s, q, gap, c, rest, -, -, -, rfl⟩ := mem_tokenize ht (by rw [hk]; rintro ⟨⟩)
  have hn : Numeral (s.token gap c rest).value.toList := Scanner.numeral_lexeme hk
  generalize (s.token gap c rest).value = text at hn ⊢
  generalize htext : text.toList = cs at hn
  cases hn with
  | @radix mark radix digits ha hall =>
    exact .inl ⟨mark, radix, digits, ha, hall, rfl, value_of_announces ha htext⟩
  | @decimal _ d hd =>
    exact .inr ⟨d, hd, decimal?_of_denotes hd, value_of_denotes (htext ▸ hd)⟩

open Number in
theorem number_has_value_separated :
    let source := "x = ._5 - .5_0e-0_3"
    let t : Token := ⟨.numberLiteral, ⟨10, 19⟩, "0.50e-03", false⟩
    t ∈ tokenize source ∧ t.kind = .numberLiteral ∧
      ((∃ mark radix digits, Announces mark radix ∧ (∀ d ∈ digits, isDigitOf radix d = true) ∧
        t.value.toList = '0' :: mark :: digits ∧ value t.value = ofRadix radix digits) ∨
      ∃ d, Denotes t.value.toList d ∧ decimal? t.value.toList = some d ∧
        value t.value = d.toFloat) := by
  intro source t
  have ht : t ∈ tokenize source := by decide +kernel
  exact ⟨ht, rfl, number_has_value ht rfl⟩

open Number in
/-- The mark of a radix makes a number also if no digit stands behind it. -/
theorem bare_mark_is_number : ¬ ∀ source, ∀ t ∈ tokenize source, t.kind = .numberLiteral →
    (∃ mark radix digits, Announces mark radix ∧ digits ≠ [] ∧
      (∀ d ∈ digits, isDigitOf radix d = true) ∧ t.value.toList = '0' :: mark :: digits) ∨
    ∃ d, Denotes t.value.toList d := by
  intro h
  rcases h "0x" ⟨.numberLiteral, ⟨0, 2⟩, "0x", false⟩ (by decide +kernel) rfl with
    ⟨mark, radix, digits, -, hne, -, heq⟩ | ⟨d, hd⟩
  · have hempty : [] = digits := (List.cons.inj (List.cons.inj heq).2).2
    exact hne hempty.symm
  · have hread := decimal?_of_denotes hd
    exact absurd hread (by rw [show decimal? "0x".toList = none by decide]; rintro ⟨⟩)

end ModuleBundler
