import ModuleBundler.Tree.Target
import ModuleBundler.Proofs.Tree.Bare

/-! Reading an expression as a pattern: spans do not matter for it, and the parts of the pattern
are parts of the expression. -/
namespace ModuleBundler

theorem Except.toOption_bind {ε α β : Type} (x : Except ε α) (f : α → Except ε β) :
    (x >>= f).toOption = x.toOption.bind fun v => (f v).toOption := by
  cases x <;> rfl

@[simp] theorem Except.toOption_pure {ε α : Type} (v : α) :
    (pure v : Except ε α).toOption = some v := rfl

@[simp] theorem Except.toOption_throw {ε α : Type} (e : ε) :
    (throw e : Except ε α).toOption = none := rfl

section Bare
variable (a : Answers)

theorem ExprForm.bare_ne_spread {span : Span} {form : ExprForm}
    (h : ∀ inner, form = .spread inner → False) :
    ∀ inner, form.bare a span = .spread inner → False := by
  intro inner hi
  cases form with
  | template texts exprs =>
    cases exprs with
    | nil => cases hs : a span <;> simp [ExprForm.bare, hs] at hi
    | cons e es => simp [ExprForm.bare] at hi
  | spread e => exact h e rfl
  | _ => simp [ExprForm.bare] at hi

mutual

/-- The pattern without spans is read from the expression without spans. -/
theorem Expr.toPattern_bare : ∀ e : Expr,
    (e.bare a).toPattern.toOption = e.toPattern.toOption.map (Pattern.bare a)
  | ⟨span, form⟩ => by
    have h := form.toPattern_bare span
    simpa only [Expr.bare, Expr.toPattern] using h

theorem ExprForm.toPattern_bare (span : Span) : ∀ f : ExprForm,
    ((f.bare a span).toPattern .nowhere).toOption
      = (f.toPattern span).toOption.map (Pattern.bare a)
  | .ident _ | .member false _ _ | .index false _ _ => rfl
  | .paren inner => inner.toPattern_bare
  | .assignment op target value => by
    have h := target.toPattern_bare
    cases op with
    | assign =>
      simp only [ExprForm.bare, ExprForm.toPattern, Except.toOption_bind, h]
      cases target.toPattern.toOption <;> rfl
    | _ => rfl
  | .array elements => by
    have h := arrayTargets_bare elements
    simp only [ExprForm.bare, ExprForm.toPattern, Except.toOption_bind, h]
    cases (arrayTargets elements).toOption <;> rfl
  | .object members => by
    have h := objectTargets_bare span members
    simp only [ExprForm.bare, ExprForm.toPattern, Except.toOption_bind, h]
    cases (objectTargets span members).toOption <;> rfl
  | .template _ [] => by
    cases hs : a span <;> simp [ExprForm.bare, ExprForm.toPattern, hs]
  | .template _ (_ :: _) | .member true _ _ | .index true _ _ | .string _ | .number _ | .bigInt _
  | .boolean _ | .null | .regExp .. | .binary .. | .unary .. | .call .. | .arrow ..
  | .arrowBlock .. | .functionExpr _ | .classExpr _ | .conditional .. | .taggedTemplate ..
  | .newCall .. | .awaitExpr _ | .yieldExpr .. | .sequence _ | .spread _ | .metaProperty ..
  | .thisExpr | .superExpr => rfl

theorem arrayTargets_bare : ∀ es : List (Option Expr),
    (arrayTargets (bareElements a es)).toOption
      = (arrayTargets es).toOption.map fun (ps, rest) => (barePositions a ps, barePattern? a rest)
  | [] => rfl
  | none :: es => by
    have hes := arrayTargets_bare es
    simp only [bareElements, bareExpr?, arrayTargets, Except.toOption_bind, hes]
    cases (arrayTargets es).toOption <;> rfl
  | some ⟨span, form⟩ :: es => by
    have hf := form.toPattern_bare span
    have hes := arrayTargets_bare es
    by_cases hs : ∃ inner, form = .spread inner
    · match form, hs with
      | .spread inner, _ =>
        have hi := inner.toPattern_bare
        simp only [bareElements, bareExpr?, Expr.bare, ExprForm.bare, arrayTargets,
          Except.toOption_bind, hi, hes]
        cases inner.toPattern.toOption with
        | none => rfl
        | some p =>
          cases (arrayTargets es).toOption with
          | none => rfl
          | some r => obtain ⟨ps, rest⟩ := r; cases rest <;> rfl
    · have hn : ∀ inner, form = .spread inner → False := fun inner h => hs ⟨inner, h⟩
      rw [bareElements, bareExpr?, Expr.bare, arrayTargets.eq_4 _ _ _ (form.bare_ne_spread a hn),
        arrayTargets.eq_4 _ _ _ hn]
      simp only [Except.toOption_bind, hf, hes]
      cases (form.toPattern span).toOption with
      | none => rfl
      | some p => cases (arrayTargets es).toOption <;> rfl

theorem objectTargets_bare (span : Span) : ∀ ms : List ObjectMember,
    (objectTargets .nowhere (bareMembers a ms)).toOption
      = (objectTargets span ms).toOption.map
          fun (ps, rest) => (bareProperties a ps, barePattern? a rest)
  | [] => rfl
  | .property key value shorthand :: ms => by
    have hv := value.toPattern_bare
    have hms := objectTargets_bare span ms
    simp only [bareMembers, ObjectMember.bare, objectTargets, Except.toOption_bind, hv, hms]
    cases value.toPattern.toOption with
    | none => rfl
    | some p => cases (objectTargets span ms).toOption <;> rfl
  | .spread value :: ms => by
    have hv := value.toPattern_bare
    have hms := objectTargets_bare span ms
    simp only [bareMembers, ObjectMember.bare, objectTargets, Except.toOption_bind, hv, hms]
    cases value.toPattern.toOption with
    | none => rfl
    | some p =>
      cases (objectTargets span ms).toOption with
      | none => rfl
      | some r => obtain ⟨ps, rest⟩ := r; cases rest <;> rfl
  | .method .. :: _ => rfl

end
end Bare

section Count
set_option linter.unusedSectionVars false
variable {q : Visit → Bool}

theorem countP_form (e : Expr) : e.form.visits.countP q ≤ e.visits.countP q := by
  obtain ⟨span, form⟩ := e
  rw [Expr.visits, List.countP_cons]
  exact Nat.le_add_right ..

variable (hq : ∀ p, q (.pattern p) = false)

include hq

theorem countP_pattern (p : Pattern) : p.visits.countP q = p.form.visits.countP q := by
  obtain ⟨span, form⟩ := p
  simp [Pattern.visits, hq]

mutual

/-- No part of a pattern stands in it more often than in the expression that it is read from. -/
theorem Expr.countP_toPattern : ∀ (e : Expr) {p : Pattern}, e.toPattern = .ok p →
    p.visits.countP q ≤ e.visits.countP q
  | ⟨span, form⟩, _, h => form.countP_toPattern span h

theorem ExprForm.countP_toPattern (span : Span) : ∀ (f : ExprForm) {p : Pattern},
    f.toPattern span = .ok p → p.visits.countP q ≤ (Expr.visits ⟨span, f⟩).countP q
  | .ident _, _, h => by
    cases h
    rw [countP_pattern hq]
    exact Nat.zero_le _
  | .member false _ _, _, h | .index false _ _, _, h => by
    cases h
    rw [countP_pattern hq]
    exact Nat.le_refl _
  | .paren inner, _, h => by
    have hi := inner.countP_toPattern h
    exact Nat.le_trans hi (countP_form (q := q) ⟨span, .paren inner⟩)
  | .assignment op target value, _, h => by
    cases op with
    | assign =>
      obtain ⟨p, hp, h⟩ := Except.bind_eq_ok.mp h
      cases h
      have ht := target.countP_toPattern hp
      have hf := countP_form (q := q) ⟨span, .assignment .assign target value⟩
      rw [countP_pattern hq]
      simp only [PatternForm.visits, ExprForm.visits, List.countP_append] at hf ⊢
      omega
    | _ => cases h
  | .array elements, _, h => by
    obtain ⟨⟨ps, rest⟩, hr, h⟩ := Except.bind_eq_ok.mp h
    cases h
    have he := countP_arrayTargets elements hr
    have hf := countP_form (q := q) ⟨span, .array elements⟩
    rw [countP_pattern hq]
    simp only [PatternForm.visits, ExprForm.visits, List.countP_append] at hf ⊢
    omega
  | .object members, _, h => by
    obtain ⟨⟨ps, rest⟩, hr, h⟩ := Except.bind_eq_ok.mp h
    cases h
    have hm := countP_objectTargets span members hr
    have hf := countP_form (q := q) ⟨span, .object members⟩
    rw [countP_pattern hq]
    simp only [PatternForm.visits, ExprForm.visits, List.countP_append] at hf ⊢
    omega

theorem countP_arrayTargets : ∀ (es : List (Option Expr)) {ps : List (Option Pattern)}
    {rest : Option Pattern}, arrayTargets es = .ok (ps, rest) →
    (visitsOfPositions ps).countP q + (visitsOfPattern? rest).countP q
      ≤ (visitsOfElements es).countP q
  | [], _, _, h => by
    cases h
    exact Nat.le_refl _
  | none :: es, _, _, h => by
    obtain ⟨⟨ps, rest⟩, hr, h⟩ := Except.bind_eq_ok.mp h
    cases h
    have hes := countP_arrayTargets es hr
    simpa [visitsOfPositions, visitsOfPattern?, visitsOfElements, visitsOfExpr?] using hes
  | some ⟨span, form⟩ :: es, ps, rest, h => by
    by_cases hs : ∃ inner, form = .spread inner
    · match form, hs with
      | .spread inner, _ =>
        obtain ⟨p, hp, h⟩ := Except.bind_eq_ok.mp h
        obtain ⟨⟨ps, rest⟩, hr, h⟩ := Except.bind_eq_ok.mp h
        cases h
        have hi := inner.countP_toPattern hp
        have hes := countP_arrayTargets es hr
        have hf := countP_form (q := q) ⟨span, .spread inner⟩
        simp only [visitsOfElements, visitsOfExpr?, List.countP_append, ExprForm.visits] at hf ⊢
        cases rest <;> simp only [Option.getD, visitsOfPattern?, List.countP_nil] at hes ⊢ <;> omega
    · have hn : ∀ inner, form = .spread inner → False := fun inner h => hs ⟨inner, h⟩
      rw [arrayTargets.eq_4 _ _ _ hn] at h
      obtain ⟨p, hp, h⟩ := Except.bind_eq_ok.mp h
      obtain ⟨⟨ps, rest⟩, hr, h⟩ := Except.bind_eq_ok.mp h
      cases h
      have hf := form.countP_toPattern span hp
      have hes := countP_arrayTargets es hr
      simp only [visitsOfElements, visitsOfExpr?, visitsOfPositions, visitsOfPattern?,
        List.countP_append]
      omega

theorem countP_objectTargets (span : Span) : ∀ (ms : List ObjectMember)
    {ps : List PatternProperty} {rest : Option Pattern}, objectTargets span ms = .ok (ps, rest) →
    (visitsOfProperties ps).countP q + (visitsOfPattern? rest).countP q
      ≤ (visitsOfMembers ms).countP q
  | [], _, _, h => by
    cases h
    exact Nat.le_refl _
  | .property key value shorthand :: ms, _, _, h => by
    obtain ⟨p, hp, h⟩ := Except.bind_eq_ok.mp h
    obtain ⟨⟨ps, rest⟩, hr, h⟩ := Except.bind_eq_ok.mp h
    cases h
    have hv := value.countP_toPattern hp
    have hms := countP_objectTargets span ms hr
    simp only [visitsOfMembers, ObjectMember.visits, visitsOfProperties, PatternProperty.visits,
      List.countP_append]
    omega
  | .spread value :: ms, _, _, h => by
    obtain ⟨p, hp, h⟩ := Except.bind_eq_ok.mp h
    obtain ⟨⟨ps, rest⟩, hr, h⟩ := Except.bind_eq_ok.mp h
    cases h
    have hv := value.countP_toPattern hp
    have hms := countP_objectTargets span ms hr
    simp only [visitsOfMembers, ObjectMember.visits, List.countP_append]
    cases rest <;> simp only [Option.getD, visitsOfPattern?, List.countP_nil] at hms ⊢ <;> omega

end
end Count
end ModuleBundler
