import ModuleBundler.Proofs.Token.Cut

/-! A token is the same when its own text stands alone. -/
namespace ModuleBundler
open ModuleBundler.Text

namespace Text
variable {w r : List Char}

/-- What is taken up to a character within a part is taken from that part alone. -/
theorem takeWhile_alone {p : Char → Bool} (h : ((w ++ r).takeWhile p).length ≤ w.length) :
    w.takeWhile p = (w ++ r).takeWhile p := by
  induction w with
  | nil => exact (List.length_eq_zero_iff.mp (Nat.le_zero.mp h)).symm
  | cons c w ih =>
    rw [List.cons_append, List.takeWhile_cons] at h
    rw [List.cons_append, List.takeWhile_cons, List.takeWhile_cons]
    cases hc : p c with
    | false => rfl
    | true =>
      rw [hc, if_pos rfl, List.length_cons, List.length_cons] at h
      rw [if_pos rfl, if_pos rfl, ih (Nat.le_of_succ_le_succ h)]

/-- A character that is looked at after a part of a text is no other one there alone, unless it
stands behind the text. -/
theorem head?_drop_alone {n : Nat} {c : Char} (hn : n ≤ w.length)
    (h : ((w ++ r).drop n).head? = some c → n < w.length) :
    (w.drop n).head? = some c ↔ ((w ++ r).drop n).head? = some c := by
  rcases Nat.lt_or_eq_of_le hn with hl | rfl
  · rw [head?_drop_append hl]
  · rw [List.drop_length]
    exact ⟨by rintro ⟨⟩, fun hs => absurd (h hs) (Nat.lt_irrefl _)⟩

/-- A condition on the first character holds of some first character. -/
theorem head?_any_eq_true {p : Char → Bool} {cs : List Char} (h : cs.head?.any p = true) :
    ∃ c v, cs = c :: v ∧ p c = true := by
  cases cs with
  | nil => cases h
  | cons c v => exact ⟨c, v, rfl, h⟩

end Text

namespace Escape
variable {w r : List Char}

theorem hexRun_alone {limit : Nat} (h : (hexRun limit (w ++ r)).length ≤ w.length) :
    hexRun limit w = hexRun limit (w ++ r) := by
  have hl : (hexRun limit (w ++ r)).length ≤ limit :=
    Nat.le_trans (List.takeWhile_prefix _).length_le (List.length_take_le ..)
  rw [hexRun, List.take_append] at h hl
  rw [hexRun, hexRun, List.take_append]
  exact takeWhile_alone (by rw [List.length_take]; exact Nat.le_min.mpr ⟨hl, h⟩)

theorem unicode_alone (h : (unicode (w ++ r)).2 ≤ w.length) : unicode w = unicode (w ++ r) := by
  by_cases hw : ∃ v, w = '{' :: v
  · obtain ⟨v, rfl⟩ := hw
    simp only [List.cons_append, unicode, List.length_cons] at h
    have hd : v.takeWhile (isDigitOf 16) = (v ++ r).takeWhile (isDigitOf 16) :=
      takeWhile_alone (by omega)
    have hc := head?_drop_alone (w := v) (r := r) (c := '}')
      (n := ((v ++ r).takeWhile (isDigitOf 16)).length) (by omega)
      fun hs => by rw [if_pos hs] at h; omega
    simp only [List.cons_append, unicode, hd, hc]
  · have hn (u : List Char) (hu : ∀ v, u ≠ '{' :: v) :
        unicode u = (charOfCode (hexValue (hexRun 4 u)), (hexRun 4 u).length) := by
      unfold unicode
      split
      · next v => exact absurd rfl (hu v)
      · rfl
    have hr : ∀ v, w ++ r ≠ '{' :: v := by
      rintro v hv
      cases w with
      | nil =>
        rw [hv, unicode] at h
        exact absurd h (by rw [List.length_nil]; omega)
      | cons c w => exact hw ⟨w, by rw [(List.cons.inj hv).1]⟩
    rw [hn _ hr] at h
    rw [hn _ hr, hn w fun v hv => hw ⟨v, hv⟩, hexRun_alone h]

theorem nameParts_alone (h : Lexeme.nameSize (nameParts (w ++ r)) ≤ w.length) :
    nameParts w = nameParts (w ++ r) := by
  generalize ht : w ++ r = t at h
  fun_induction nameParts t generalizing w with
  | case1 => rw [(List.append_eq_nil_iff.mp ht).1, nameParts]
  | case2 cs ih =>
    simp only [Lexeme.nameSize, List.foldr_cons] at h
    obtain ⟨v, rfl, rfl⟩ := cut_append (u := ['\\', 'u']) ht (by simp; omega)
    simp only [List.length_append, List.length_cons, List.length_nil] at h
    have hu : unicode v = unicode (v ++ r) := unicode_alone (by omega)
    have hd : (v ++ r).drop (unicode (v ++ r)).2 = v.drop (unicode (v ++ r)).2 ++ r :=
      List.drop_append_of_le_length (by omega)
    simp only [List.cons_append, List.nil_append]
    rw [nameParts, hu, ih hd.symm ?_]
    rw [List.length_drop]
    simp only [Lexeme.nameSize]
    omega
  | case3 c cs hc hp ih =>
    simp only [Lexeme.nameSize, List.foldr_cons] at h
    obtain ⟨v, rfl, rfl⟩ := cut_append (u := [c]) ht (by simp; omega)
    simp only [List.length_append, List.length_cons, List.length_nil] at h
    simp only [List.cons_append, List.nil_append]
    rw [nameParts_cons, if_pos hp, ih rfl (by simp only [Lexeme.nameSize]; omega)]
    rintro u rfl
    exact absurd hp (by decide)
  | case4 c cs hc hp =>
    cases w with
    | nil => rw [nameParts]
    | cons d w =>
      obtain ⟨rfl, rfl⟩ := List.cons.inj ht
      rw [nameParts_cons, if_neg hp]
      rintro u hd rfl
      exact hc _ hd rfl

end Escape

namespace Lexeme
variable {c : Char} {w r : List Char}

theorem digitRun_alone {radix : Nat} (h : (digitRun radix (w ++ r)).length ≤ w.length) :
    digitRun radix w = digitRun radix (w ++ r) := takeWhile_alone h

theorem length_digitRun_cons {radix : Nat} (hc : isDigitOf radix c = true) (cs : List Char) :
    1 ≤ (digitRun radix (c :: cs)).length := by
  rw [digitRun, List.takeWhile_cons, if_pos (by simp [hc])]
  exact Nat.succ_le_succ (Nat.zero_le _)

theorem isDigitOf_of_isDigit (h : c.isDigit = true) : isDigitOf 10 c = true := by
  have hv : c.toNat - '0'.toNat < 10 := by
    simp only [Char.isDigit, Bool.and_eq_true, decide_eq_true_eq] at h
    have h₂ : c.toNat ≤ '9'.toNat := h.2
    have hn : '9'.toNat = 57 ∧ '0'.toNat = 48 := by decide
    omega
  rw [isDigitOf, digitValue?, if_pos h, Option.filter_some, if_pos (decide_eq_true hv)]
  rfl

theorem exponent_alone (h : (exponent (w ++ r)).length ≤ w.length) :
    exponent w = exponent (w ++ r) := by
  rcases w with _ | ⟨mark, _ | ⟨d, w⟩⟩
  · exact (List.length_eq_zero_iff.mp (Nat.le_zero.mp h)).symm
  · -- the mark alone is no exponent, and with what follows it would be one of two characters
    cases r with
    | nil => rfl
    | cons d r =>
      have hd (hd : d.isDigit = true) := length_digitRun_cons (isDigitOf_of_isDigit hd) r
      simp only [List.cons_append, List.nil_append, exponent, List.length_cons,
        List.length_nil] at h ⊢
      split at h
      · split at h
        · next hdigit =>
          have := hd hdigit
          simp only [List.length_cons] at h
          omega
        · split at h
          · simp only [List.length_cons] at h
            omega
          · simp_all
      · simp_all
  · simp only [List.cons_append, exponent, List.length_cons] at h ⊢
    by_cases hm : mark = 'e' ∨ mark = 'E'
    · rw [if_pos hm] at h
      rw [if_pos hm, if_pos hm]
      by_cases hd : d.isDigit = true
      · rw [if_pos hd, List.length_cons] at h
        rw [if_pos hd, if_pos hd]
        rw [digitRun_alone (w := d :: w) (by simpa using Nat.le_of_succ_le_succ h)]
        rfl
      · rw [if_neg hd] at h
        rw [if_neg hd, if_neg hd]
        cases w with
        | nil =>
          by_cases hs : (d = '+' ∨ d = '-') ∧ r.head?.any Char.isDigit = true
          · obtain ⟨a, u, rfl, hdigit⟩ := head?_any_eq_true hs.2
            have := length_digitRun_cons (isDigitOf_of_isDigit hdigit) u
            rw [List.nil_append, if_pos hs] at h
            simp only [List.length_cons, List.length_nil] at h
            omega
          · rw [List.nil_append, if_neg hs]
            simp
        | cons a w =>
          have ha (v : List Char) : (a :: v).head?.any Char.isDigit = a.isDigit := rfl
          rw [List.cons_append, ha] at h ⊢
          rw [ha]
          by_cases hs : (d = '+' ∨ d = '-') ∧ a.isDigit = true
          · rw [if_pos hs, List.length_cons, List.length_cons] at h
            rw [if_pos hs, if_pos hs]
            rw [digitRun_alone (w := a :: w)
              (Nat.le_of_succ_le_succ (Nat.le_of_succ_le_succ h))]
            rfl
          · rw [if_neg hs, if_neg hs]
    · rw [if_neg hm, if_neg hm]

theorem fraction_alone (h : (fraction (w ++ r)).length ≤ w.length) :
    fraction w = fraction (w ++ r) := by
  cases w with
  | nil => exact (List.length_eq_zero_iff.mp (Nat.le_zero.mp h)).symm
  | cons c w =>
    by_cases hc : c = '.'
    · subst hc
      simp only [List.cons_append, fraction, List.length_cons] at h ⊢
      rw [digitRun_alone (Nat.le_of_succ_le_succ h)]
    · simp [fraction, hc]

theorem radixNumber_alone {radix : Nat} {mark : Char}
    (h : (radixNumber radix mark (w ++ r)).size ≤ w.length + 2) :
    radixNumber radix mark w = radixNumber radix mark (w ++ r) := by
  have hn : (digitRun radix (w ++ r)).length ≤ w.length ∧
      (((w ++ r).drop (digitRun radix (w ++ r)).length).head? = some 'n' →
        (digitRun radix (w ++ r)).length < w.length) := by
    simp only [radixNumber] at h
    split at h
    · exact ⟨by simp only at h; omega, fun _ => by simp only at h; omega⟩
    · next hs => exact ⟨by simp only at h; omega, fun hs' => absurd hs' hs⟩
  simp only [radixNumber, digitRun_alone hn.1, head?_drop_alone hn.1 hn.2]

theorem decimalNumber_alone (h : (decimalNumber (w ++ r)).size ≤ w.length) :
    decimalNumber w = decimalNumber (w ++ r) := by
  generalize hd : digitRun 10 (w ++ r) = whole
  simp only [decimalNumber, hd] at h
  have hl : whole.length ≤ w.length := by
    split at h
    · exact Nat.le_trans (Nat.le_succ _) h
    · simp only [List.length_append] at h
      omega
  have hw : digitRun 10 w = whole := by rw [← hd, digitRun_alone (by rw [hd]; exact hl)]
  have hn := head?_drop_alone (w := w) (r := r) (c := 'n') hl fun hs => by
    rw [if_pos hs] at h
    exact h
  have hdrop : (w ++ r).drop whole.length = w.drop whole.length ++ r :=
    List.drop_append_of_le_length hl
  simp only [decimalNumber, hd, hw, hn]
  split
  · rfl
  · next hs =>
    rw [if_neg hs] at h
    simp only [hdrop, List.length_append] at h
    have hlw := List.length_drop (i := whole.length) (l := w)
    have hf : fraction (w.drop whole.length) = fraction (w.drop whole.length ++ r) :=
      fraction_alone (by omega)
    have hfl : (fraction (w.drop whole.length ++ r)).length ≤ (w.drop whole.length).length := by
      omega
    have hfd : (w.drop whole.length ++ r).drop (fraction (w.drop whole.length ++ r)).length
        = (w.drop whole.length).drop (fraction (w.drop whole.length ++ r)).length ++ r :=
      List.drop_append_of_le_length hfl
    have he := exponent_alone (r := r)
      (w := (w.drop whole.length).drop (fraction (w.drop whole.length ++ r)).length) (by
        rw [← hfd, List.length_drop]
        omega)
    simp only [hdrop, hf, hfd, he]

theorem number_alone (h : (number (c :: (w ++ r))).size ≤ w.length + 1) :
    number (c :: w) = number (c :: (w ++ r)) := by
  have hd (h : (decimalNumber (c :: (w ++ r))).size ≤ w.length + 1) :
      decimalNumber (c :: w) = decimalNumber (c :: (w ++ r)) :=
    decimalNumber_alone (w := c :: w) h
  by_cases hc : c = '0'
  · subst hc
    cases w with
    | nil =>
      cases r with
      | nil => rfl
      | cons mark r =>
        simp only [number, List.nil_append] at h hd ⊢
        cases hr : radix? mark with
        | none =>
          rw [hr] at h
          exact hd h
        | some radix =>
          rw [hr] at h
          simp only [radixNumber, List.length_nil] at h
          split at h <;> simp only at h <;> omega
    | cons mark w =>
      simp only [number, List.cons_append] at h hd ⊢
      cases hr : radix? mark with
      | none =>
        rw [hr] at h
        exact hd h
      | some radix =>
        rw [hr] at h
        exact radixNumber_alone h
  · have hn (cs : List Char) : number (c :: cs) = decimalNumber (c :: cs) := by
      simp [number, hc]
    rw [hn] at h
    rw [hn, hn]
    exact hd h

theorem pointNumber_alone (h : (pointNumber (w ++ r)).size ≤ w.length + 1) :
    pointNumber w = pointNumber (w ++ r) := by
  generalize hd : digitRun 10 (w ++ r) = digits
  simp only [pointNumber, hd, List.length_append] at h
  have hl : digits.length ≤ w.length := by omega
  have hw : digitRun 10 w = digits := by rw [← hd, digitRun_alone (by rw [hd]; exact hl)]
  have hdrop : (w ++ r).drop digits.length = w.drop digits.length ++ r :=
    List.drop_append_of_le_length hl
  have he := exponent_alone (w := w.drop digits.length) (r := r) (by
    rw [← hdrop, List.length_drop]
    omega)
  simp only [pointNumber, hd, hw, hdrop, he]

theorem name_alone (hk : (name (w ++ r)).kind ≠ .error) (h : (name (w ++ r)).size ≤ w.length) :
    name w = name (w ++ r) := by
  have hp : nameSize (Escape.nameParts (w ++ r)) ≤ w.length := by
    simp only [name] at hk h
    split at h
    · next hn => rw [if_pos hn] at hk; exact absurd rfl hk
    · split at h <;> exact h
  simp only [name, Escape.nameParts_alone hp, List.take_append_of_le_length hp]

theorem privateName_alone (hk : (privateName (w ++ r)).kind ≠ .error)
    (h : (privateName (w ++ r)).size ≤ w.length + 1) : privateName w = privateName (w ++ r) := by
  have hp : nameSize (Escape.nameParts (w ++ r)) ≤ w.length := by
    simp only [privateName] at hk h
    split at h
    · next hn => rw [if_pos hn] at hk; exact absurd rfl hk
    · exact Nat.le_of_succ_le_succ h
  simp only [privateName, Escape.nameParts_alone hp]

/-- An operator or delimiter is the longest one in its own text. -/
theorem punctuator?_chars (p : Punctuator) : punctuator? p.chars = some p := by
  cases p <;> decide

theorem mark_alone (hk : (mark c (w ++ r)).kind ≠ .error)
    (h : (mark c (w ++ r)).size - 1 = w.length) : mark c w = mark c (w ++ r) := by
  cases hp : punctuator? (c :: (w ++ r)) with
  | none =>
    simp only [mark, hp] at hk
    exact absurd rfl hk
  | some p =>
    simp only [mark, hp, verbatim] at h
    have hf := List.find?_some hp
    simp only [fits, Bool.and_eq_true] at hf
    have hw : c :: w = p.chars := by
      have hw : c :: w <+: c :: (w ++ r) := ⟨r, rfl⟩
      have hpre := List.isPrefixOf_iff_prefix.mp hf.1
      have hp : 0 < p.chars.length := by cases p <;> decide
      have hl : (c :: w).length = p.chars.length := by
        rw [List.length_cons]
        omega
      exact (List.prefix_of_prefix_length_le hw hpre (Nat.le_of_eq hl)).eq_of_length hl
    simp only [mark, hp, hw, punctuator?_chars]

theorem string_alone {quote : Char} (hq : quote ≠ '\\')
    (hk : (string quote (w ++ r)).kind ≠ .error)
    (h : (string quote (w ++ r)).size ≤ w.length + 1) :
    string quote w = string quote (w ++ r) := by
  by_cases hs : ((w ++ r).drop (stringBody quote (w ++ r)).length).head? = some quote
  · simp only [string, if_pos hs] at h
    have hl : (stringBody quote (w ++ r)).length < w.length := by omega
    have hb : stringBody quote w = stringBody quote (w ++ r) := by
      simpa using stringBody_within hq [] hl
    simp only [string, hb, head?_drop_append hl]
  · simp only [string, if_neg hs] at hk
    exact absurd rfl hk

theorem template_alone {opening : Bool} (hk : (template opening (w ++ r)).kind ≠ .error)
    (h : (template opening (w ++ r)).size ≤ w.length + 1) :
    template opening w = template opening (w ++ r) := by
  generalize hb : templateBody (w ++ r) = body
  have hl : body.length < w.length ∧
      (((w ++ r).drop body.length).head? = some '$' → body.length + 1 < w.length) := by
    simp only [template, hb] at h hk
    rcases hb ▸ drop_templateBody (w ++ r) with ⟨u, hu⟩ | ⟨u, hu⟩ | hu
    · rw [hu] at h ⊢
      exact ⟨by simp at h; omega, by rintro ⟨⟩⟩
    · rw [hu] at h ⊢
      simp at h
      exact ⟨by omega, fun _ => by omega⟩
    · rw [hu, List.drop_length] at hk
      exact absurd rfl hk
  have hw : templateBody w = body := by
    have hw := templateBody_within [] (hb ▸ hl.1) (hb ▸ hl.2)
    rwa [List.append_nil, hb] at hw
  obtain ⟨a, v, hv⟩ : ∃ a v, w.drop body.length = a :: v :=
    List.exists_cons_of_length_pos (by rw [List.length_drop]; omega)
  simp only [template, hb, hw, List.drop_append_of_le_length (Nat.le_of_lt hl.1), hv]
  simp only [List.cons_append]
  by_cases ha : a = '`'
  · subst ha
    rfl
  by_cases hs : a = '$'
  · subst hs
    rfl
  simp [ha, hs]

theorem regex_alone (hk : (regex (w ++ r)).kind ≠ .error)
    (h : (regex (w ++ r)).size ≤ w.length + 1) : regex w = regex (w ++ r) := by
  cases hb : regexBody? false (w ++ r) with
  | none =>
    simp only [regex, hb] at hk
    exact absurd rfl hk
  | some body =>
    simp only [regex, hb, verbatim, List.length_cons, List.length_append] at h
    have hl : body.length ≤ w.length := by omega
    have hw : regexBody? false w = some body := by
      simpa using regexBody?_within [] hb hl
    have hdrop : (w ++ r).drop body.length = w.drop body.length ++ r :=
      List.drop_append_of_le_length hl
    have hf : (w.drop body.length).takeWhile isLetterOrNumber
        = (w.drop body.length ++ r).takeWhile isLetterOrNumber := by
      refine takeWhile_alone ?_
      rw [← hdrop, List.length_drop]
      omega
    simp only [regex, hb, hw, hdrop, hf]

theorem head?_any_append {p : Char → Bool} (h : w.head?.any p = true) :
    (w ++ r).head?.any p = true := by
  obtain ⟨c, v, rfl, hc⟩ := head?_any_eq_true h
  exact hc

theorem plain_alone {divides : Bool} (hk : (plain divides c (w ++ r)).kind ≠ .error)
    (h : (plain divides c (w ++ r)).size - 1 = w.length) :
    plain divides c w = plain divides c (w ++ r) := by
  have hle {n : Nat} (h : n - 1 = w.length) : n ≤ w.length + 1 := by omega
  unfold plain at hk h ⊢
  by_cases hq : c = '"' ∨ c = '\''
  · simp only [if_pos hq] at hk h ⊢
    exact string_alone (by rcases hq with rfl | rfl <;> decide) hk (hle h)
  simp only [if_neg hq] at hk h ⊢
  by_cases ht : c = '`'
  · simp only [if_pos ht] at hk h ⊢
    exact template_alone hk (hle h)
  simp only [if_neg ht] at hk h ⊢
  by_cases hd : c.isDigit = true
  · simp only [if_pos hd] at h ⊢
    exact number_alone (hle h)
  simp only [if_neg hd] at hk h ⊢
  by_cases hn : isNameStart c = true
  · simp only [if_pos hn] at hk h ⊢
    exact name_alone (w := c :: w) hk (hle h)
  simp only [if_neg hn] at hk h ⊢
  by_cases hh : c = '#'
  · simp only [if_pos hh] at hk h ⊢
    exact privateName_alone hk (hle h)
  simp only [if_neg hh] at hk h ⊢
  by_cases hs : c = '/'
  · simp only [if_pos hs] at hk h ⊢
    by_cases hr : (w ++ r).head? = some '*'
    · rw [if_pos hr] at hk
      exact absurd rfl hk
    have hw : w.head? ≠ some '*' := by
      rintro hw
      obtain ⟨v, rfl⟩ := List.head?_eq_some_iff.mp hw
      exact hr rfl
    rw [if_neg hr] at hk h
    rw [if_neg hr, if_neg hw]
    cases divides with
    | true => exact mark_alone hk h
    | false => exact regex_alone hk (hle h)
  simp only [if_neg hs] at hk h ⊢
  by_cases hp : c = '.' ∧ (w ++ r).head?.any Char.isDigit = true
  · rw [if_pos hp] at h ⊢
    have hw : pointNumber w = pointNumber (w ++ r) := pointNumber_alone (hle h)
    -- a number has a digit after its point, so that digit is part of its text
    have hl : 1 < (pointNumber (w ++ r)).size := by
      obtain ⟨a, u, hu, hdigit⟩ := head?_any_eq_true hp.2
      have := length_digitRun_cons (isDigitOf_of_isDigit hdigit) u
      rw [hu]
      simp only [pointNumber, List.length_append]
      omega
    cases w with
    | nil =>
      rw [List.length_nil] at h
      omega
    | cons d w =>
      have hd : c = '.' ∧ (d :: w).head?.any Char.isDigit = true := hp
      rw [if_pos hd, hw]
  · rw [if_neg hp] at hk h
    rw [if_neg hp, if_neg fun hw => hp ⟨hw.1, head?_any_append hw.2⟩, mark_alone hk h]

end Lexeme

namespace Scanner
variable {s : Scanner} {c : Char}

/-- A token is read from its own text as it is read from all the text that is left. -/
theorem lexeme_alone {w r : List Char} (hk : (s.lexeme c (w ++ r)).kind ≠ .error)
    (h : (s.lexeme c (w ++ r)).size - 1 = w.length) : s.lexeme c w = s.lexeme c (w ++ r) := by
  unfold lexeme at hk h ⊢
  by_cases hc : c = '\x7d' ∧ s.braces.head? = some .substitution
  · simp only [if_pos hc] at hk h ⊢
    exact Lexeme.template_alone hk (Nat.sub_le_iff_le_add.mp (Nat.le_of_eq h))
  · simp only [if_neg hc] at hk h ⊢
    exact Lexeme.plain_alone hk h

end Scanner
end ModuleBundler
