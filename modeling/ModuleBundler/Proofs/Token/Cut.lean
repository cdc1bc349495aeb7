import ModuleBundler.Proofs.Token.Answered

/-! Tokens that end with a text are read the same when other text follows it. -/
namespace ModuleBundler
open ModuleBundler.Text

namespace Lexeme

/-- A template piece stops at a dollar sign only if that opens a substitution. -/
theorem brace_of_dollar {t u : List Char} (h : t.drop (templateBody t).length = '$' :: u) :
    ∃ v, u = '\x7b' :: v := by
  fun_induction templateBody t with
  | case1 c cs ih => exact ih (by simpa using h)
  | case2 cs => exact ⟨cs, (List.cons.inj h).2.symm⟩
  | case3 cs => cases h
  | case4 c cs _ _ _ ih => exact ih (by simpa using h)
  | case5 => cases h

theorem length_exponent (w : List Char) : (exponent w).length ≤ w.length := by
  unfold exponent
  split
  · next mark c cs =>
    have h₁ := length_digitRun 10 (c :: cs)
    have h₂ := length_digitRun 10 cs
    simp only [List.length_cons] at h₁ ⊢
    split
    · split
      · simpa using h₁
      · split
        · simpa using h₂
        · exact Nat.zero_le _
    · exact Nat.zero_le _
  · exact Nat.zero_le _

theorem size_decimalNumber (w : List Char) : (decimalNumber w).size ≤ w.length := by
  have h := length_digitRun 10 w
  have hf := length_fraction (w.drop (digitRun 10 w).length)
  have he := length_exponent
    ((w.drop (digitRun 10 w).length).drop (fraction (w.drop (digitRun 10 w).length)).length)
  simp only [decimalNumber]
  split
  · next hn =>
    have : (digitRun 10 w).length < w.length := by
      rw [← Nat.not_le]
      intro hl
      rw [List.drop_eq_nil_iff.mpr hl] at hn
      cases hn
    exact this
  · simp only [List.length_drop, List.length_append] at *
    omega

theorem size_radixNumber (radix : Nat) (mark : Char) (w : List Char) :
    (radixNumber radix mark w).size ≤ w.length + 2 := by
  have h := length_digitRun radix w
  simp only [radixNumber]
  split
  · next hn =>
    have : (digitRun radix w).length < w.length := by
      rw [← Nat.not_le]
      intro hl
      rw [List.drop_eq_nil_iff.mpr hl] at hn
      cases hn
    simp only
    omega
  · simpa using h

theorem size_number (w : List Char) : (number w).size ≤ w.length := by
  unfold number
  split
  · split
    · exact size_radixNumber _ _ _
    · exact size_decimalNumber _
  · exact size_decimalNumber _

theorem size_pointNumber (w : List Char) : (pointNumber w).size ≤ w.length + 1 := by
  have h := length_digitRun 10 w
  have he := length_exponent (w.drop (digitRun 10 w).length)
  simp only [pointNumber, List.length_append, List.length_drop] at *
  omega

theorem size_name (w : List Char) (h : (name w).kind ≠ .error) : (name w).size ≤ w.length := by
  have hs := Escape.nameSize_le w
  simp only [name] at h ⊢
  split
  · next hp => simp [hp, fault] at h
  · split <;> exact hs

theorem size_privateName (w : List Char) (h : (privateName w).kind ≠ .error) :
    (privateName w).size ≤ w.length + 1 := by
  have hs := Escape.nameSize_le w
  simp only [privateName] at h ⊢
  split
  · next hp => simp [hp, fault] at h
  · exact Nat.succ_le_succ hs

theorem size_mark (c : Char) (w : List Char) : (mark c w).size ≤ w.length + 1 := by
  unfold mark
  split
  · next p hp =>
    have h := List.find?_some hp
    simp only [fits, Bool.and_eq_true] at h
    exact (List.isPrefixOf_iff_prefix.mp h.1).length_le
  · exact Nat.succ_le_succ (Nat.zero_le _)

theorem length_regexBody? {inClass : Bool} {w body : List Char}
    (h : regexBody? inClass w = some body) : body.length ≤ w.length := by
  fun_induction regexBody? inClass w generalizing body with
  | case1 inClass c cs hc => cases h
  | case2 inClass c cs hc ih =>
    obtain ⟨b, hb, rfl⟩ := Option.map_eq_some_iff.mp h
    simpa using ih hb
  | case3 inClass c cs hb hc => cases h
  | case4 inClass c cs hb hc hs =>
    obtain rfl := Option.some.inj h
    exact Nat.succ_le_succ (Nat.zero_le _)
  | case5 inClass c cs hb hc hs ih =>
    obtain ⟨b, hb, rfl⟩ := Option.map_eq_some_iff.mp h
    simpa using ih hb
  | case6 => cases h

/-- A token that ends with a text is the same before other text, and reaches no further. -/
structure Cut (m : Char) (w x : List Char) (read : List Char → Lexeme) : Prop where
  same : read (w ++ m :: x) = read w
  size : (read w).size ≤ w.length + 1

variable {m : Char} {w x : List Char}

theorem lt_of_head?_drop {n : Nat} {c : Char} (h : (w.drop n).head? = some c) : n < w.length := by
  rw [← Nat.not_le]
  intro hl
  rw [List.drop_eq_nil_iff.mpr hl] at h
  cases h

theorem string_cut {quote : Char} (hq : quote ≠ '\\') (h : (string quote w).kind ≠ .error) :
    Cut m w x (string quote) := by
  by_cases hs : (w.drop (stringBody quote w).length).head? = some quote
  · have hl := lt_of_head?_drop hs
    have hb : stringBody quote (w ++ m :: x) = stringBody quote w := by
      have hw := stringBody_within hq (w := w) (x := []) (m :: x) (by simpa using hl)
      simpa using hw
    constructor
    · simp only [string, hb, head?_drop_append hl]
    · simp only [string, hs, if_true]
      omega
  · simp only [string, if_neg hs] at h
    exact absurd rfl h

theorem template_cut {opening : Bool} (h : (template opening w).kind ≠ .error) :
    Cut m w x (template opening) := by
  have hb (hl : (templateBody w).length < w.length)
      (hd : (w.drop (templateBody w).length).head? = some '$' →
        (templateBody w).length + 1 < w.length) :
      templateBody (w ++ m :: x) = templateBody w := by
    have hw := templateBody_within (w := w) (x := []) (m :: x) (by simpa using hl)
      (by simpa using hd)
    simpa using hw
  have hdrop (hl : (templateBody w).length < w.length) :
      (w ++ m :: x).drop (templateBody w).length
        = w.drop (templateBody w).length ++ m :: x :=
    List.drop_append_of_le_length (Nat.le_of_lt hl)
  rcases drop_templateBody w with ⟨u, hu⟩ | ⟨u, hu⟩ | hu
  · have hl := lt_of_head?_drop (c := '`') (by rw [hu]; rfl)
    constructor
    · simp only [template, hb hl (by rw [hu]; rintro ⟨⟩), hdrop hl, hu, List.cons_append]
    · simp only [template, hu]
      omega
  · obtain ⟨v, rfl⟩ := brace_of_dollar hu
    have hl := congrArg List.length hu
    rw [List.length_drop, List.length_cons, List.length_cons] at hl
    constructor
    · simp only [template, hb (by omega) fun _ => by omega, hdrop (by omega), hu,
        List.cons_append]
    · simp only [template, hu]
      omega
  · simp only [template, hu, List.drop_length] at h
    exact absurd rfl h

section Stops
variable (hm : Stops m)
include hm

theorem regex_cut (h : (regex w).kind ≠ .error) : Cut m w x regex := by
  cases hb : regexBody? false w with
  | some body =>
    have hl := length_regexBody? hb
    have hx : regexBody? false (w ++ m :: x) = some body :=
      regexBody?_within (x := []) (m :: x) (by simpa using hb) hl
    have hf := (List.takeWhile_prefix (p := isLetterOrNumber) (l := w.drop body.length)).length_le
    rw [List.length_drop] at hf
    constructor
    · simp only [regex, hb, hx, List.drop_append_of_le_length hl,
        takeWhile_before hm.letterOrNumber]
    · simp only [regex, hb, verbatim, List.length_cons, List.length_append]
      omega
  | none =>
    simp only [regex, hb] at h
    exact absurd rfl h

theorem plain_cut {divides : Bool} {c : Char} (h : (plain divides c w).kind ≠ .error) :
    Cut m w x (plain divides c) := by
  unfold plain at h ⊢
  by_cases hq : c = '"' ∨ c = '\''
  · simp only [if_pos hq] at h ⊢
    exact string_cut (by rcases hq with rfl | rfl <;> decide) h
  simp only [if_neg hq] at h ⊢
  by_cases ht : c = '`'
  · simp only [if_pos ht] at h ⊢
    exact template_cut h
  simp only [if_neg ht] at h ⊢
  by_cases hd : c.isDigit = true
  · simp only [if_pos hd] at h ⊢
    exact ⟨number_before hm c w x, size_number (c :: w)⟩
  simp only [if_neg hd] at h ⊢
  by_cases hn : isNameStart c = true
  · simp only [if_pos hn] at h ⊢
    exact ⟨name_before hm (c :: w) x, size_name (c :: w) h⟩
  simp only [if_neg hn] at h ⊢
  by_cases hh : c = '#'
  · simp only [if_pos hh] at h ⊢
    exact ⟨privateName_before hm w x, size_privateName w h⟩
  simp only [if_neg hh] at h ⊢
  by_cases hs : c = '/'
  · simp only [if_pos hs] at h ⊢
    by_cases hw : w.head? = some '*'
    · rw [if_pos hw] at h
      exact absurd rfl h
    · have hx : (w ++ m :: x).head? ≠ some '*' :=
        mt (head?_eq_before (hm.ne_of_mark .starStar (by decide) (by decide)).symm w x).mp hw
      rw [if_neg hw] at h
      have hc (read : List Char → Lexeme) (hr : Cut m w x read) :
          Cut m w x fun cs => if cs.head? = some '*' then
            fault (cs.length + 1) "Unterminated multi-line comment" else read cs :=
        ⟨by rw [if_neg hx, if_neg hw, hr.same], by rw [if_neg hw]; exact hr.size⟩
      cases divides with
      | true => exact hc (mark c) ⟨mark_before hm c w x, size_mark c w⟩
      | false => exact hc regex (regex_cut hm h)
  simp only [if_neg hs] at h ⊢
  have ha := head?_any_before hm.digit w x
  by_cases hp : c = '.' ∧ w.head?.any Char.isDigit = true
  · simp only [if_pos hp] at h
    refine ⟨?_, ?_⟩
    · rw [ha, if_pos hp, if_pos hp, pointNumber_before hm]
    · rw [if_pos hp]
      exact size_pointNumber w
  · refine ⟨?_, ?_⟩
    · rw [ha, if_neg hp, if_neg hp, mark_before hm]
    · rw [if_neg hp]
      exact size_mark c w

end Stops
end Lexeme

namespace Scanner
variable {s : Scanner} {m c : Char} (hm : Stops m) {w gap : List Char} {x : List Char}

include hm in
theorem lexeme_cut (h : (s.lexeme c w).kind ≠ .error) : Lexeme.Cut m w x (s.lexeme c) := by
  unfold lexeme at h ⊢
  by_cases hc : c = '\x7d' ∧ s.braces.head? = some .substitution
  · simp only [if_pos hc] at h ⊢
    exact Lexeme.template_cut h
  · simp only [if_neg hc] at h ⊢
    exact Lexeme.plain_cut hm h

/-- No comment starts where a token starts. -/
theorem starts_no_comment (hc : Lexeme.gap (c :: w) = []) (h : (s.lexeme c w).kind ≠ .error) :
    ∀ d v, c = '/' → w = d :: v → d ≠ '/' ∧ d ≠ '*' := by
  rintro d v rfl rfl
  constructor
  · rintro rfl
    rw [Lexeme.gap] at hc
    cases hc
  · rintro rfl
    have ho := not_opensComment h
    cases ho

theorem gap_eq_nil (h : ∀ d v, c = '/' → w = d :: v → d ≠ '/' ∧ d ≠ '*') :
    Lexeme.gap (c :: w) = [] ↔ isBlank c = false := by
  rw [Lexeme.gap_plain h]
  cases isBlank c <;> simp

include hm in
/-- The blanks and comments before a token of the text stay the same. -/
theorem gap_cut (hg : Lexeme.gap (gap ++ c :: w) = gap) (h : (s.lexeme c w).kind ≠ .error) :
    Lexeme.gap (gap ++ c :: (w ++ m :: x)) = gap
      ∧ newlineIn gap (c :: (w ++ m :: x)) = newlineIn gap (c :: w) := by
  have hc := gap_token hg
  have hw := starts_no_comment hc h
  have hslash : m ≠ '/' := hm.ne_of_mark .slashEq (by decide) (by decide)
  have hstar : m ≠ '*' := hm.ne_of_mark .starStar (by decide) (by decide)
  -- The text with the character does not go on with a comment either.
  have hx : ∀ d v, c = '/' → w ++ m :: x = d :: v → d ≠ '/' ∧ d ≠ '*' := by
    intro d v hs hd
    cases w with
    | nil =>
      obtain ⟨rfl, -⟩ := List.cons.inj hd
      exact ⟨hslash, hstar⟩
    | cons e w =>
      obtain ⟨rfl, -⟩ := List.cons.inj hd
      exact hw e w hs rfl
  refine ⟨gap_append_token hg ((gap_eq_nil hx).mpr ((gap_eq_nil hw).mp hc)), ?_⟩
  have ho' : Lexeme.opensComment (c :: (w ++ m :: x)) = false := by
    rw [Bool.eq_false_iff, ne_eq, opensComment_iff]
    rintro ⟨hs, hh⟩
    obtain ⟨v, hv⟩ := List.head?_eq_some_iff.mp hh
    exact (hx _ v hs hv).2 rfl
  rw [newlineIn, newlineIn, not_opensComment h, ho']
  rfl

end Scanner
end ModuleBundler
