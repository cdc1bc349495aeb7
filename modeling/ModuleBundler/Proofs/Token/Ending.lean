import ModuleBundler.Proofs.Token.Extent

/-! Strings, templates and regular expressions end where they are closed. So a token that ends
before an opening parenthesis does not depend on what follows that. -/
namespace ModuleBundler
open ModuleBundler.Text

namespace Lexeme

theorem stringBody_plain {quote c : Char} (hc : c ≠ '\\') (cs : List Char) :
    stringBody quote (c :: cs)
      = if c = quote ∨ c = '\n' ∨ c = '\r' then [] else c :: stringBody quote cs := by
  rw [stringBody]
  · exact fun _ h => absurd h hc
  · exact fun _ _ h => absurd h hc

theorem stringBody_within {quote : Char} (hq : quote ≠ '\\') {w x : List Char} (y : List Char)
    (h : (stringBody quote (w ++ x)).length < w.length) :
    stringBody quote (w ++ y) = stringBody quote (w ++ x) := by
  generalize ht : w ++ x = t at h
  fun_induction stringBody quote t generalizing w with
  | case1 cs ih =>
    simp only [List.length_cons] at h
    obtain ⟨v, rfl, rfl⟩ := cut_append (u := ['\\', '\r', '\n']) ht (by simp; omega)
    simp only [List.length_append, List.length_cons, List.length_nil] at h
    simp only [List.cons_append, List.nil_append]
    rw [stringBody, ih rfl (by omega)]
  | case2 c cs hc ih =>
    simp only [List.length_cons] at h
    obtain ⟨v, rfl, rfl⟩ := cut_append (u := ['\\', c]) ht (by simp; omega)
    simp only [List.length_append, List.length_cons, List.length_nil] at h
    simp only [List.cons_append, List.nil_append]
    rw [stringBody, ih rfl (by omega)]
    rintro u rfl hu
    obtain ⟨a, v, rfl⟩ := List.exists_cons_of_length_pos (l := v) (by omega)
    exact hc _ rfl (by rw [List.cons_append, (List.cons.inj hu).1])
  | case3 c cs h₁ h₂ hc =>
    obtain ⟨v, rfl, rfl⟩ := cut_append (u := [c]) ht h
    have hb : c ≠ '\\' := by
      rintro rfl
      exact absurd hc (by simp [hq.symm])
    simp only [List.cons_append, List.nil_append]
    rw [stringBody_plain hb, if_pos hc]
  | case4 c cs h₁ h₂ hc ih =>
    simp only [List.length_cons] at h
    obtain ⟨v, rfl, rfl⟩ := cut_append (u := [c]) ht (by simp; omega)
    simp only [List.length_append, List.length_cons, List.length_nil] at h
    have hb : c ≠ '\\' := by
      rintro rfl
      obtain ⟨a, v, rfl⟩ := List.exists_cons_of_length_pos (l := v) (by omega)
      exact h₂ a (v ++ x) rfl rfl
    simp only [List.cons_append, List.nil_append]
    rw [stringBody_plain hb, if_neg hc, ih rfl (by omega)]
  | case5 =>
    rw [(List.append_eq_nil_iff.mp ht).1] at h
    cases h

/-- A string does not end at a character that neither closes a string nor ends a line. -/
theorem stringBody_passes {quote m : Char} (hm : ¬(m = quote ∨ m = '\n' ∨ m = '\r'))
    (w r : List Char) :
    (stringBody quote (w ++ m :: r)).length ≠ w.length := by
  generalize ht : w ++ m :: r = t
  fun_induction stringBody quote t generalizing w with
  | case1 cs ih =>
    intro h
    simp only [List.length_cons] at h
    obtain ⟨v, rfl, rfl⟩ := cut_append (u := ['\\', '\r', '\n']) ht (by simp; omega)
    exact ih v rfl (by simpa using h)
  | case2 c cs hc ih =>
    intro h
    simp only [List.length_cons] at h
    obtain ⟨v, rfl, rfl⟩ := cut_append (u := ['\\', c]) ht (by simp; omega)
    exact ih v rfl (by simpa using h)
  | case3 c cs h₁ h₂ hc =>
    intro h
    obtain rfl := List.length_eq_zero_iff.mp h.symm
    exact hm ((List.cons.inj ht).1 ▸ hc)
  | case4 c cs h₁ h₂ hc ih =>
    intro h
    simp only [List.length_cons] at h
    obtain ⟨v, rfl, rfl⟩ := cut_append (u := [c]) ht (by simp; omega)
    exact ih v rfl (by simpa using h)
  | case5 => simp at ht

theorem string_before {quote : Char} {m : Char} (hq : quote ≠ '\\')
    (hm : ¬(m = quote ∨ m = '\n' ∨ m = '\r'))
    {w r : List Char} (r' : List Char)
    (h : (string quote (w ++ m :: r)).size ≤ w.length + 1) :
    string quote (w ++ m :: r') = string quote (w ++ m :: r) := by
  have hl : (stringBody quote (w ++ m :: r)).length < w.length := by
    have := stringBody_passes hm w r
    simp only [string] at h
    split at h <;> simp only [fault] at h <;> omega
  simp only [string, stringBody_within hq _ hl, head?_drop_append hl]

theorem templateBody_plain {c : Char} {cs : List Char} (hc : c ≠ '\\')
    (hd : ∀ v, c = '$' → cs = '\x7b' :: v → False) :
    templateBody (c :: cs) = if c = '`' then [] else c :: templateBody cs := by
  rw [templateBody]
  · exact fun _ _ h => absurd h hc
  · exact hd

/-- The text of a template piece does not depend on what comes after the mark that ends it. -/
theorem templateBody_within {w x : List Char} (y : List Char)
    (h : (templateBody (w ++ x)).length < w.length)
    (hd : ((w ++ x).drop (templateBody (w ++ x)).length).head? = some '$' →
      (templateBody (w ++ x)).length + 1 < w.length) :
    templateBody (w ++ y) = templateBody (w ++ x) := by
  generalize ht : w ++ x = t at h hd
  fun_induction templateBody t generalizing w with
  | case1 c cs ih =>
    simp only [List.length_cons, List.drop_succ_cons] at h hd
    obtain ⟨v, rfl, rfl⟩ := cut_append (u := ['\\', c]) ht (by simp; omega)
    simp only [List.length_append, List.length_cons, List.length_nil] at h hd
    simp only [List.cons_append, List.nil_append]
    rw [templateBody, ih rfl (by omega) fun h => by have := hd h; omega]
  | case2 cs =>
    have hl := hd rfl
    obtain ⟨v, rfl, rfl⟩ := cut_append (u := ['$', '\x7b']) ht hl
    rfl
  | case3 cs h₁ h₂ =>
    obtain ⟨v, rfl, rfl⟩ := cut_append (u := ['`']) ht h
    rfl
  | case4 c cs h₁ h₂ hc ih =>
    simp only [List.length_cons, List.drop_succ_cons] at h hd
    obtain ⟨v, rfl, rfl⟩ := cut_append (u := [c]) ht (by simp; omega)
    simp only [List.length_append, List.length_cons, List.length_nil] at h hd
    obtain ⟨a, v, rfl⟩ := List.exists_cons_of_length_pos (l := v) (by omega)
    have hb : c ≠ '\\' := fun hb => h₁ a (v ++ x) hb rfl
    have hs : ∀ u, c = '$' → a :: v ++ y = '\x7b' :: u → False := fun u hc hu =>
      h₂ (v ++ x) hc (by rw [List.cons_append, (List.cons.inj hu).1])
    simp only [List.cons_append, List.nil_append] at ih hs ⊢
    rw [templateBody_plain hb hs, if_neg hc]
    refine congrArg _ (ih (w := a :: v) rfl ?_ fun h => ?_)
    · simp at h ⊢
      omega
    · have := hd h
      simp at this ⊢
      omega
  | case5 =>
    rw [(List.append_eq_nil_iff.mp ht).1] at h
    cases h

/-- A template piece reaches up to a mark that ends it, or to the end of the text. -/
theorem drop_templateBody (t : List Char) :
    (∃ u, t.drop (templateBody t).length = '`' :: u)
      ∨ (∃ u, t.drop (templateBody t).length = '$' :: u) ∨ (templateBody t).length = t.length := by
  fun_induction templateBody t with
  | case1 c cs ih => simpa using ih
  | case2 cs => exact .inr (.inl ⟨_, rfl⟩)
  | case3 cs => exact .inl ⟨_, rfl⟩
  | case4 c cs _ _ _ ih => simpa using ih
  | case5 => exact .inr (.inr rfl)

theorem template_before {m : Char} {opening : Bool} {w r : List Char} (r' : List Char)
    (h : (template opening (w ++ m :: r)).size ≤ w.length + 1) :
    template opening (w ++ m :: r') = template opening (w ++ m :: r) := by
  generalize hb : templateBody (w ++ m :: r) = body
  have hl : body.length < w.length ∧
      (((w ++ m :: r).drop body.length).head? = some '$' → body.length + 1 < w.length) := by
    simp only [template, hb] at h
    rcases hb ▸ drop_templateBody (w ++ m :: r) with ⟨u, hu⟩ | ⟨u, hu⟩ | hu
    · rw [hu] at h ⊢
      exact ⟨by simp at h; omega, by rintro ⟨⟩⟩
    · rw [hu] at h ⊢
      simp at h
      exact ⟨by omega, fun _ => by omega⟩
    · rw [hu, List.drop_length] at h
      simp only [fault, List.length_append, List.length_cons] at h
      omega
  have hy := templateBody_within (m :: r') (hb ▸ hl.1) (hb ▸ hl.2)
  obtain ⟨a, v, hv⟩ : ∃ a v, w.drop body.length = a :: v :=
    List.exists_cons_of_length_pos (by rw [List.length_drop]; omega)
  simp only [template, hy, hb, List.drop_append_of_le_length (Nat.le_of_lt hl.1), hv]
  simp only [List.cons_append]
  by_cases ha : a = '`'
  · subst ha; rfl
  by_cases hs : a = '$'
  · subst hs; rfl
  simp [ha, hs]

theorem regexBody?_plain {inClass : Bool} {c : Char} {cs : List Char} (hc : c ≠ '\\') :
    regexBody? inClass (c :: cs) =
      if isLineTerminator c then none
      else if c = '/' ∧ inClass = false then some ['/']
      else (c :: ·) <$> regexBody? (c = '[' ∨ (inClass ∧ c ≠ ']')) cs := by
  rw [regexBody?]
  exact fun _ _ h => absurd h hc

/-- The closing slash of a regular expression does not depend on what comes after it. -/
theorem regexBody?_within {inClass : Bool} {w x body : List Char} (y : List Char)
    (h : regexBody? inClass (w ++ x) = some body) (hl : body.length ≤ w.length) :
    regexBody? inClass (w ++ y) = some body := by
  generalize ht : w ++ x = t at h
  fun_induction regexBody? inClass t generalizing w body with
  | case1 inClass c cs hc => cases h
  | case2 inClass c cs hc ih =>
    obtain ⟨b, hb, rfl⟩ := Option.map_eq_some_iff.mp h
    simp only [List.length_cons] at hl
    obtain ⟨v, rfl, rfl⟩ := cut_append (u := ['\\', c]) ht (by simp; omega)
    simp only [List.cons_append, List.nil_append]
    rw [regexBody?, if_neg hc, ih (by simp at hl; omega) rfl hb]
    rfl
  | case3 inClass c cs hb hc => cases h
  | case4 inClass c cs hb hc hs =>
    obtain rfl := Option.some.inj h
    obtain ⟨v, rfl, rfl⟩ := cut_append (u := [c]) ht hl
    simp only [List.cons_append, List.nil_append]
    rw [regexBody?_plain (by rw [hs.1]; decide), if_neg hc, if_pos hs]
  | case5 inClass c cs hb hc hs ih =>
    obtain ⟨b, hr, rfl⟩ := Option.map_eq_some_iff.mp h
    have hp : c ≠ '\\' := by
      rintro rfl
      cases cs with
      | nil => cases hr
      | cons d cs => exact hb d cs rfl rfl
    simp only [List.length_cons] at hl
    obtain ⟨v, rfl, rfl⟩ := cut_append (u := [c]) ht (by simp; omega)
    simp only [List.cons_append, List.nil_append]
    rw [regexBody?_plain hp, if_neg hc, if_neg hs, ih (by simp at hl; omega) rfl hr]
    rfl
  | case6 => cases h

theorem regexBody?_none {inClass : Bool} {w x : List Char} (y : List Char)
    (h : regexBody? inClass (w ++ x) = none)
    (hl : ((w ++ x).takeWhile fun c => !isLineTerminator c).length < w.length) :
    regexBody? inClass (w ++ y) = none := by
  generalize ht : w ++ x = t at h hl
  fun_induction regexBody? inClass t generalizing w with
  | case1 inClass c cs hc =>
    have hb : ('\\' :: c :: cs).takeWhile (fun c => !isLineTerminator c) = ['\\'] := by
      rw [List.takeWhile_cons, if_pos (by decide), List.takeWhile_cons, if_neg (by simp [hc])]
    rw [hb] at hl
    obtain ⟨v, rfl, rfl⟩ := cut_append (u := ['\\', c]) ht hl
    simp only [List.cons_append, List.nil_append]
    rw [regexBody?, if_pos hc]
  | case2 inClass c cs hc ih =>
    have hr := Option.map_eq_none_iff.mp h
    rw [List.takeWhile_cons, if_pos (by decide), List.takeWhile_cons, if_pos (by simp [hc])] at hl
    simp only [List.length_cons] at hl
    obtain ⟨v, rfl, rfl⟩ := cut_append (u := ['\\', c]) ht (by simp; omega)
    simp only [List.cons_append, List.nil_append]
    rw [regexBody?, if_neg hc, ih rfl hr (by simp at hl; omega)]
    rfl
  | case3 inClass c cs hb hc =>
    obtain ⟨v, rfl, rfl⟩ := cut_append (u := [c]) ht (by simp; omega)
    simp only [List.cons_append, List.nil_append]
    rw [regexBody?_plain (by rintro rfl; exact absurd hc (by decide)), if_pos hc]
  | case4 inClass c cs hb hc hs => cases h
  | case5 inClass c cs hb hc hs ih =>
    have hr := Option.map_eq_none_iff.mp h
    rw [List.takeWhile_cons, if_pos (by simp [hc])] at hl
    simp only [List.length_cons] at hl
    obtain ⟨v, rfl, rfl⟩ := cut_append (u := [c]) ht (by simp; omega)
    have hp : c ≠ '\\' := by
      rintro rfl
      obtain ⟨a, v, rfl⟩ := List.exists_cons_of_length_pos (l := v) (by simp at hl; omega)
      exact hb a (v ++ x) rfl rfl
    simp only [List.cons_append, List.nil_append]
    rw [regexBody?_plain hp, if_neg hc, if_neg hs, ih rfl hr (by simp at hl; omega)]
    rfl
  | case6 =>
    rw [(List.append_eq_nil_iff.mp ht).1] at hl
    cases hl

theorem regex_before {m : Char} (hm : Stops m) (ht : isLineTerminator m = false) {w r : List Char}
    (r' : List Char) (h : (regex (w ++ m :: r)).size ≤ w.length + 1) :
    regex (w ++ m :: r') = regex (w ++ m :: r) := by
  cases hb : regexBody? false (w ++ m :: r) with
  | some body =>
    simp only [regex, hb, verbatim, List.length_cons, List.length_append] at h
    have hl : body.length ≤ w.length := by omega
    rw [regex, regex, hb, regexBody?_within (m :: r') hb hl]
    simp only [List.drop_append_of_le_length hl, takeWhile_before hm.letterOrNumber]
  | none =>
    simp only [regex, hb, fault] at h
    obtain ⟨hl, hw⟩ := takeWhile_cut (p := fun c => !isLineTerminator c) (by simp [ht])
      (Nat.le_of_succ_le_succ h) (m :: r')
    simp only [regex, hb, regexBody?_none (m :: r') hb hl, hw]

/-- A token that ends before an opening parenthesis does not depend on what follows that. -/
theorem plain_before {divides : Bool} {c : Char} {w r : List Char} (r' : List Char)
    (h : (plain divides c (w ++ '(' :: r)).size ≤ w.length + 1) :
    plain divides c (w ++ '(' :: r') = plain divides c (w ++ '(' :: r) := by
  have hm := stops_paren
  unfold plain at h ⊢
  by_cases hq : c = '"' ∨ c = '\''
  · rw [if_pos hq] at h
    rw [if_pos hq, if_pos hq]
    have hb : c ≠ '\\' := by rcases hq with rfl | rfl <;> decide
    have hp : ¬('(' = c ∨ '(' = '\n' ∨ '(' = '\r') := by rcases hq with rfl | rfl <;> decide
    exact string_before hb hp r' h
  rw [if_neg hq] at h
  rw [if_neg hq, if_neg hq]
  by_cases ht : c = '`'
  · rw [if_pos ht] at h
    rw [if_pos ht, if_pos ht]
    exact template_before r' h
  rw [if_neg ht] at h
  rw [if_neg ht, if_neg ht]
  by_cases hd : c.isDigit = true
  · rw [if_pos hd, if_pos hd, number_before hm, number_before hm]
  rw [if_neg hd] at h
  rw [if_neg hd, if_neg hd]
  by_cases hn : isNameStart c = true
  · have hw (r : List Char) := name_before hm (c :: w) r
    simp only [List.cons_append] at hw
    rw [if_pos hn, if_pos hn, hw, hw]
  rw [if_neg hn] at h
  rw [if_neg hn, if_neg hn]
  by_cases hh : c = '#'
  · rw [if_pos hh, if_pos hh, privateName_before hm, privateName_before hm]
  rw [if_neg hh] at h
  rw [if_neg hh, if_neg hh]
  by_cases hs : c = '/'
  · rw [if_pos hs] at h
    rw [if_pos hs, if_pos hs]
    have hc (r : List Char) : (w ++ '(' :: r).head? = some '*' ↔ w.head? = some '*' :=
      head?_eq_before (by decide) w r
    by_cases hw : w.head? = some '*'
    · rw [if_pos ((hc r).mpr hw)] at h
      simp only [fault, List.length_append, List.length_cons] at h
      omega
    · rw [if_neg (mt (hc r).mp hw)] at h
      rw [if_neg (mt (hc r').mp hw), if_neg (mt (hc r).mp hw)]
      cases divides with
      | true => rw [if_pos rfl, if_pos rfl, mark_before hm, mark_before hm]
      | false => exact regex_before hm (by decide) r' h
  rw [if_neg hs] at h
  rw [if_neg hs, if_neg hs]
  simp only [head?_any_before hm.digit, mark_before hm, pointNumber_before hm]

end Lexeme
end ModuleBundler
