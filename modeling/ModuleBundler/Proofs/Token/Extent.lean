import ModuleBundler.Token.Lexeme

/-! Names, numbers and marks end before certain characters, whatever comes after those. -/
namespace ModuleBundler
open ModuleBundler.Text

namespace Text
variable {p : Char → Bool} {m : Char}

theorem takeWhile_before (h : p m = false) (w r : List Char) :
    (w ++ m :: r).takeWhile p = w.takeWhile p := by
  induction w with
  | nil => simp [h]
  | cons c w ih => rw [List.cons_append, List.takeWhile_cons, List.takeWhile_cons, ih]

theorem head?_any_before (h : p m = false) (w r : List Char) :
    (w ++ m :: r).head?.any p = w.head?.any p := by
  cases w with
  | nil => simpa using h
  | cons c w => rfl

theorem head?_eq_before {c : Char} (h : c ≠ m) (w r : List Char) :
    (w ++ m :: r).head? = some c ↔ w.head? = some c := by
  cases w with
  | nil => simpa using Ne.symm h
  | cons d w => rfl

theorem isPrefixOf_before {l : List Char} (h : m ∉ l) (w r : List Char) :
    l.isPrefixOf (w ++ m :: r) = l.isPrefixOf w := by
  induction l generalizing w with
  | nil => rw [List.isPrefixOf_nil_left, List.isPrefixOf_nil_left]
  | cons a l ih =>
    obtain ⟨ha, hl⟩ := not_or.mp (mt List.mem_cons.mpr h)
    cases w with
    | nil => simp [List.isPrefixOf, Ne.symm ha]
    | cons c w => rw [List.cons_append, List.isPrefixOf, List.isPrefixOf, ih hl]

/-- A text that begins with some characters does so within a part that is long enough. -/
theorem cut_append {u t w x : List Char} (h : w ++ x = u ++ t) (hl : u.length ≤ w.length) :
    ∃ v, w = u ++ v ∧ t = v ++ x := by
  rcases List.append_eq_append_iff.mp h with ⟨v, rfl, rfl⟩ | ⟨v, rfl, rfl⟩
  · obtain rfl : v = [] := by
      rw [List.length_append] at hl
      exact List.length_eq_zero_iff.mp (by omega)
    exact ⟨[], by simp, rfl⟩
  · exact ⟨v, rfl, rfl⟩

theorem head?_drop_append {n : Nat} {w : List Char} (h : n < w.length) (x : List Char) :
    ((w ++ x).drop n).head? = (w.drop n).head? := by
  rw [List.drop_append_of_le_length (Nat.le_of_lt h)]
  cases hd : w.drop n with
  | nil => exact absurd (List.drop_eq_nil_iff.mp hd) (by omega)
  | cons c cs => rfl

theorem takeWhile_cut {p : Char → Bool} {m : Char} (hm : p m = true) {w r : List Char}
    (h : ((w ++ m :: r).takeWhile p).length ≤ w.length) (y : List Char) :
    ((w ++ m :: r).takeWhile p).length < w.length
      ∧ (w ++ y).takeWhile p = (w ++ m :: r).takeWhile p := by
  induction w with
  | nil => simp [hm] at h
  | cons c w ih =>
    rw [List.cons_append, List.cons_append, List.takeWhile_cons, List.takeWhile_cons] at *
    cases hc : p c with
    | false => simp
    | true =>
      rw [hc] at h
      obtain ⟨hl, he⟩ := ih (by simpa using h)
      simpa [he] using hl

/-- The character is part of no name, number or escape, and of no mark that is longer. -/
structure Stops (m : Char) : Prop where
  name : isNamePart m = false
  backslash : m ≠ '\\'
  brace : m ≠ '\x7b' ∧ m ≠ '\x7d'
  mark : ∀ p : Punctuator, m ∈ p.chars → p.chars = [m]

theorem stops_paren : Stops '(' where
  name := by decide
  backslash := by decide
  brace := by decide
  mark p := by cases p <;> decide

namespace Stops
variable (hm : Stops m)
include hm

theorem letterOrNumber : isLetterOrNumber m = false := by
  have h := hm.name
  simp only [isNamePart, Bool.or_eq_false_iff] at h
  exact h.1.1.1.1

theorem digit : m.isDigit = false := by
  have h := hm.letterOrNumber
  simp only [isLetterOrNumber, Bool.or_eq_false_iff] at h
  exact h.1.2

theorem isDigitOf (radix : Nat) : isDigitOf radix m = false := by
  have h := hm.letterOrNumber
  simp only [isLetterOrNumber, isLetter, Bool.or_eq_false_iff] at h
  obtain ⟨hupper, hlower⟩ : m.isUpper = false ∧ m.isLower = false :=
    Bool.or_eq_false_iff.mp h.1.1.1
  have hl : ¬('a' ≤ m ∧ m ≤ 'f') := by
    rintro ⟨ha, hf⟩
    have hz : m.val ≤ 'z'.val := UInt32.le_trans hf (by decide)
    have : m.isLower = true := Bool.and_eq_true_iff.mpr ⟨decide_eq_true ha, decide_eq_true hz⟩
    rw [hlower] at this
    cases this
  have hu : ¬('A' ≤ m ∧ m ≤ 'F') := by
    rintro ⟨ha, hf⟩
    have hz : m.val ≤ 'Z'.val := UInt32.le_trans hf (by decide)
    have : m.isUpper = true := decide_eq_true ⟨ha, hz⟩
    rw [hupper] at this
    cases this
  rw [Text.isDigitOf, digitValue?, if_neg (by rw [hm.digit]; exact Bool.false_ne_true), if_neg hl,
    if_neg hu]
  rfl

theorem ne_of_namePart {c : Char} (hc : isNamePart c = true) : m ≠ c := by
  rintro rfl
  rw [hm.name] at hc
  cases hc

theorem ne_of_mark {c : Char} (p : Punctuator) (hp : c ∈ p.chars) (hl : p.chars ≠ [c]) : m ≠ c := by
  rintro rfl
  exact hl (hm.mark p hp)

end Stops
end Text

namespace Escape
variable {m : Char} (hm : Stops m)
include hm

theorem hexRun_before (limit : Nat) (w r : List Char) :
    hexRun limit (w ++ m :: r) = hexRun limit w := by
  rcases Nat.lt_or_ge w.length limit with hl | hl
  · obtain ⟨k, hk⟩ : ∃ k, limit - w.length = k + 1 := ⟨limit - w.length - 1, by omega⟩
    rw [hexRun, hexRun, List.take_append, hk, List.take_succ_cons,
      takeWhile_before (hm.isDigitOf 16), List.take_of_length_le (Nat.le_of_lt hl)]
  · rw [hexRun, hexRun, List.take_append_of_le_length hl]

theorem unicode_before (w r : List Char) : unicode (w ++ m :: r) = unicode w := by
  have hb := hm.brace
  by_cases hw : ∃ v, w = '{' :: v
  · obtain ⟨v, rfl⟩ := hw
    have hl := (List.takeWhile_prefix (p := isDigitOf 16) (l := v)).length_le
    simp only [List.cons_append, unicode, takeWhile_before (hm.isDigitOf 16),
      List.drop_append_of_le_length hl, head?_eq_before hb.2.symm]
  · have hh := hexRun_before hm 4 w r
    cases w with
    | nil => simp only [List.nil_append] at hh ⊢; simp [unicode, hb, hh]
    | cons c w =>
      have hc : c ≠ '{' := by rintro rfl; exact hw ⟨w, rfl⟩
      simp only [List.cons_append] at hh ⊢
      simp [unicode, hc, hh]

omit hm in
theorem unicode_le (w : List Char) : (unicode w).2 ≤ w.length := by
  unfold unicode
  split
  · next v =>
    have hl := (List.takeWhile_prefix (p := isDigitOf 16) (l := v)).length_le
    simp only [List.length_cons]
    split
    · next h =>
      have : (v.drop (v.takeWhile (isDigitOf 16)).length).length ≠ 0 := by
        intro h'
        rw [List.length_eq_zero_iff.mp h'] at h
        cases h
      rw [List.length_drop] at this
      omega
    · omega
  · have hl := (List.takeWhile_prefix (p := isDigitOf 16) (l := w.take 4)).length_le
    exact Nat.le_trans hl (List.length_take_le' 4 w)

omit hm in
theorem nameParts_cons {c : Char} {w : List Char} (h : ∀ v, c = '\\' → w = 'u' :: v → False) :
    nameParts (c :: w) = if isNamePart c then (c, 1) :: nameParts w else [] := by
  rw [nameParts]
  exact h

theorem nameParts_before (w r : List Char) : nameParts (w ++ m :: r) = nameParts w := by
  fun_induction nameParts w with
  | case1 =>
    rw [List.nil_append, nameParts_cons fun _ h _ => hm.backslash h, hm.name]
    rfl
  | case2 w ih =>
    rw [List.cons_append, List.cons_append, nameParts, unicode_before hm,
      List.drop_append_of_le_length (unicode_le w), ih]
  | case3 c w _ hc ih =>
    rw [List.cons_append, nameParts_cons, if_pos hc, ih]
    rintro v rfl
    exact absurd hc (by decide)
  | case4 c w h hc =>
    rw [List.cons_append, nameParts_cons, if_neg hc]
    intro v hb hv
    cases w with
    | nil => exact hm.ne_of_namePart (by decide) (List.cons.inj hv).1
    | cons d w => exact h w hb (by rw [(List.cons.inj hv).1])

omit hm in
theorem nameSize_le (w : List Char) : Lexeme.nameSize (nameParts w) ≤ w.length := by
  fun_induction nameParts w with
  | case1 => exact Nat.le_refl _
  | case2 w ih =>
    have hu := unicode_le w
    simp only [Lexeme.nameSize, List.foldr_cons, List.length_cons, List.length_drop] at ih ⊢
    omega
  | case3 c w _ hc ih =>
    simp only [Lexeme.nameSize, List.foldr_cons, List.length_cons] at ih ⊢
    omega
  | case4 c w _ hc => exact Nat.zero_le _

end Escape

namespace Lexeme
variable {m : Char} (hm : Stops m)
include hm

theorem digitRun_before (radix : Nat) (w r : List Char) :
    digitRun radix (w ++ m :: r) = digitRun radix w := by
  refine takeWhile_before ?_ w r
  have h := hm.name
  simp only [isNamePart, Bool.or_eq_false_iff] at h
  rw [hm.isDigitOf, h.1.1.1.2]
  rfl

theorem exponent_before (w r : List Char) : exponent (w ++ m :: r) = exponent w := by
  have he : m ≠ 'e' ∧ m ≠ 'E' :=
    ⟨hm.ne_of_namePart (by decide), hm.ne_of_namePart (by decide)⟩
  have hs : m ≠ '+' ∧ m ≠ '-' :=
    ⟨hm.ne_of_mark .plusPlus (by decide) (by decide),
      hm.ne_of_mark .minusMinus (by decide) (by decide)⟩
  rcases w with _ | ⟨mark, _ | ⟨c, w⟩⟩
  · cases r with
    | nil => rfl
    | cons c r => rw [List.nil_append, exponent, if_neg (by simp [he])]; rfl
  · simp [exponent, hm.digit, hs]
  · have hw := digitRun_before hm 10 w r
    have hc := digitRun_before hm 10 (c :: w) r
    rw [List.cons_append] at hc
    rw [List.cons_append, List.cons_append, exponent, exponent, hc, hw,
      head?_any_before hm.digit]

omit hm in
theorem length_digitRun (radix : Nat) (w : List Char) : (digitRun radix w).length ≤ w.length :=
  (List.takeWhile_prefix _).length_le

theorem radixNumber_before (radix : Nat) (mark : Char) (w r : List Char) :
    radixNumber radix mark (w ++ m :: r) = radixNumber radix mark w := by
  have hn : m ≠ 'n' := hm.ne_of_namePart (by decide)
  simp only [radixNumber, digitRun_before hm,
    List.drop_append_of_le_length (length_digitRun radix w), head?_eq_before hn.symm]

theorem fraction_before (w r : List Char) : fraction (w ++ m :: r) = fraction w := by
  have hd : m ≠ '.' := hm.ne_of_mark .dotDotDot (by decide) (by decide)
  cases w with
  | nil => simp [fraction, hd]
  | cons c w =>
    by_cases hc : c = '.'
    · rw [hc, List.cons_append, fraction, fraction, digitRun_before hm]
    · simp [fraction, hc]

omit hm in
theorem length_fraction (w : List Char) : (fraction w).length ≤ w.length := by
  unfold fraction
  split
  · simpa using length_digitRun 10 _
  · exact Nat.zero_le _

theorem decimalNumber_before (w r : List Char) :
    decimalNumber (w ++ m :: r) = decimalNumber w := by
  have hn : m ≠ 'n' := hm.ne_of_namePart (by decide)
  simp only [decimalNumber, digitRun_before hm, fraction_before hm, exponent_before hm,
    List.drop_append_of_le_length (length_digitRun 10 w), head?_eq_before hn.symm,
    List.drop_append_of_le_length (length_fraction _)]

theorem number_before (c : Char) (w r : List Char) :
    number (c :: (w ++ m :: r)) = number (c :: w) := by
  have hd := decimalNumber_before hm (c :: w) r
  rw [List.cons_append] at hd
  by_cases hc : c = '0'
  · subst hc
    cases w with
    | nil =>
      have hr : radix? m = none := by
        rw [radix?, if_neg, if_neg, if_neg] <;> rintro (rfl | rfl) <;>
          exact hm.ne_of_namePart (by decide) rfl
      simp only [number, List.nil_append, hr] at hd ⊢
      exact hd
    | cons mark w =>
      simp only [number, List.cons_append, radixNumber_before hm] at hd ⊢
      rw [hd]
  · simp [number, hc, hd]

theorem pointNumber_before (w r : List Char) : pointNumber (w ++ m :: r) = pointNumber w := by
  simp only [pointNumber, digitRun_before hm,
    List.drop_append_of_le_length (length_digitRun 10 w), exponent_before hm]

theorem name_before (w r : List Char) : name (w ++ m :: r) = name w := by
  simp only [name, Escape.nameParts_before hm,
    List.take_append_of_le_length (Escape.nameSize_le w)]

theorem privateName_before (w r : List Char) : privateName (w ++ m :: r) = privateName w := by
  simp only [privateName, Escape.nameParts_before hm]

theorem fits_before (c : Char) (w r : List Char) (p : Punctuator) :
    fits (c :: (w ++ m :: r)) p = fits (c :: w) p := by
  have hp : p.chars.isPrefixOf (c :: (w ++ m :: r)) = p.chars.isPrefixOf (c :: w) := by
    by_cases h : m ∈ p.chars
    · simp [hm.mark p h, List.isPrefixOf]
    · exact isPrefixOf_before h (c :: w) r
  rw [fits, fits, hp]
  cases hq : p == .questionDot with
  | false => rfl
  | true =>
    -- The two characters of the mark stand before the end, so the one after them does not change.
    rw [eq_of_beq hq]
    cases w with
    | nil => simp [Punctuator.chars, Punctuator.text, List.isPrefixOf]
    | cons d w =>
      rw [List.cons_append, List.drop_succ_cons, List.drop_succ_cons, List.drop_succ_cons,
        List.drop_succ_cons, List.drop_zero, List.drop_zero, head?_any_before hm.digit]

theorem mark_before (c : Char) (w r : List Char) : mark c (w ++ m :: r) = mark c w := by
  have hf : fits (c :: (w ++ m :: r)) = fits (c :: w) := funext (fits_before hm c w r)
  rw [mark, mark, punctuator?, punctuator?, hf]

end Lexeme
end ModuleBundler
