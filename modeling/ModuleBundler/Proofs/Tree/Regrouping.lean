import Mathlib.Data.List.Count
import Mathlib.Data.List.Perm.Basic
import ModuleBundler.Analysis.Module
import ModuleBundler.Proofs.Tree.Target

/-! What a walk meets in an expression and in the pattern that is read from it. Of several spread
parts of one literal only the last is kept, so what the others hold is lost, and nothing else;
where the spread part comes last, all calls are met in the same order. -/
namespace ModuleBundler

/-- The part is a call of the name `require`. -/
def Visit.isRequire : Visit → Bool
  | .expr e => e.requireCall?.isSome
  | _ => false

/-- The element of an array is a spread part. -/
def isSpread : Option Expr → Bool
  | some ⟨_, .spread _⟩ => true
  | _ => false

/-- The member of an object literal is a spread part. -/
def ObjectMember.isSpread : ObjectMember → Bool
  | .spread _ => true
  | _ => false

mutual

/-- What the pattern of an expression does not hold of it: the spread parts of its literals that
another one follows. -/
def Expr.dropped : Expr → List Visit
  | ⟨_, form⟩ => form.dropped

/-- What the pattern of an expression of this form does not hold of it. -/
def ExprForm.dropped : ExprForm → List Visit
  | .paren inner => inner.dropped
  | .assignment _ target _ => target.dropped
  | .array elements => droppedElements elements
  | .object members => droppedMembers members
  | _ => []

/-- What an array pattern does not hold of these elements. -/
def droppedElements : List (Option Expr) → List Visit
  | [] => []
  | none :: elements => droppedElements elements
  | some ⟨_, .spread inner⟩ :: elements =>
    (if elements.any isSpread then inner.visits else inner.dropped) ++ droppedElements elements
  | some ⟨_, form⟩ :: elements => form.dropped ++ droppedElements elements

/-- What an object pattern does not hold of these members. -/
def droppedMembers : List ObjectMember → List Visit
  | [] => []
  | .property _ value _ :: members => value.dropped ++ droppedMembers members
  | .spread value :: members =>
    (if members.any ObjectMember.isSpread then value.visits else value.dropped)
      ++ droppedMembers members
  | .method .. :: members => droppedMembers members

end

mutual

/-- In no literal of an expression that becomes a pattern does anything follow a spread part. -/
def Expr.restLast : Expr → Bool
  | ⟨_, form⟩ => form.restLast

/-- In no literal of an expression of this form that becomes a pattern does anything follow a spread
part. -/
def ExprForm.restLast : ExprForm → Bool
  | .paren inner => inner.restLast
  | .assignment _ target _ => target.restLast
  | .array elements => restLastOfElements elements
  | .object members => restLastOfMembers members
  | _ => true

/-- No element follows a spread part, also in the literals among the elements. -/
def restLastOfElements : List (Option Expr) → Bool
  | [] => true
  | none :: elements => restLastOfElements elements
  | some ⟨_, .spread inner⟩ :: elements => elements.isEmpty && inner.restLast
  | some ⟨_, form⟩ :: elements => form.restLast && restLastOfElements elements

/-- No member follows a spread part, also in the literals that are values of members. -/
def restLastOfMembers : List ObjectMember → Bool
  | [] => true
  | .property _ value _ :: members => value.restLast && restLastOfMembers members
  | .spread value :: members => members.isEmpty && value.restLast
  | .method .. :: members => restLastOfMembers members

end

/-- A sample of parts that has no pattern and no expression that is no call. -/
structure OnlyCalls (q : Visit → Bool) : Prop where
  pattern : ∀ p, q (.pattern p) = false
  expr : ∀ e, q (.expr e) = true → ∃ optional callee args, e.form = .call optional callee args

theorem onlyCalls_isRequire : OnlyCalls Visit.isRequire where
  pattern _ := rfl
  expr e h := by
    obtain ⟨span, form⟩ := e
    cases form with
    | call optional callee args => exact ⟨optional, callee, args, rfl⟩
    | _ => simp [Visit.isRequire, Expr.requireCall?] at h

namespace OnlyCalls
variable {q : Visit → Bool} (hq : OnlyCalls q)
include hq

theorem filter_pattern (p : Pattern) : p.visits.filter q = p.form.visits.filter q := by
  obtain ⟨span, form⟩ := p
  rw [Pattern.visits, List.filter_cons_of_neg (by simp [hq.pattern])]

theorem filter_expr {span : Span} {form : ExprForm}
    (h : ∀ optional callee args, form ≠ .call optional callee args) :
    (Expr.visits ⟨span, form⟩).filter q = form.visits.filter q := by
  rw [Expr.visits, List.filter_cons_of_neg]
  intro he
  obtain ⟨optional, callee, args, hf⟩ := hq.expr _ he
  exact h optional callee args hf

end OnlyCalls

/-- An array pattern has a rest if one of the elements is a spread part. -/
theorem isSome_rest_of_arrayTargets {es : List (Option Expr)} {ps : List (Option Pattern)}
    {rest : Option Pattern} (h : arrayTargets es = .ok (ps, rest)) :
    rest.isSome = es.any isSpread := by
  induction es generalizing ps rest with
  | nil =>
    cases h
    rfl
  | cons element es ih =>
    cases element with
    | none =>
      obtain ⟨⟨ps, rest⟩, hr, h⟩ := Except.bind_eq_ok.mp h
      cases h
      simpa [isSpread] using ih hr
    | some e =>
      obtain ⟨span, form⟩ := e
      by_cases hs : ∃ inner, form = .spread inner
      · obtain ⟨inner, rfl⟩ := hs
        obtain ⟨p, -, h⟩ := Except.bind_eq_ok.mp h
        obtain ⟨⟨ps, rest⟩, -, h⟩ := Except.bind_eq_ok.mp h
        cases h
        simp [isSpread]
      · have hn : ∀ inner, form = .spread inner → False := fun inner h => hs ⟨inner, h⟩
        rw [arrayTargets.eq_4 _ _ _ hn] at h
        obtain ⟨p, -, h⟩ := Except.bind_eq_ok.mp h
        obtain ⟨⟨ps, rest⟩, hr, h⟩ := Except.bind_eq_ok.mp h
        cases h
        rw [List.any_cons, isSpread.eq_2 _ (by rintro _ _ ⟨⟩; exact hn _ rfl), Bool.false_or]
        exact ih hr

/-- An object pattern has a rest if one of the members is a spread part. -/
theorem isSome_rest_of_objectTargets {span : Span} {ms : List ObjectMember}
    {ps : List PatternProperty} {rest : Option Pattern}
    (h : objectTargets span ms = .ok (ps, rest)) : rest.isSome = ms.any ObjectMember.isSpread := by
  induction ms generalizing ps rest with
  | nil =>
    cases h
    rfl
  | cons member ms ih =>
    cases member with
    | property key value shorthand =>
      obtain ⟨p, -, h⟩ := Except.bind_eq_ok.mp h
      obtain ⟨⟨ps, rest⟩, hr, h⟩ := Except.bind_eq_ok.mp h
      cases h
      simpa [ObjectMember.isSpread] using ih hr
    | spread value =>
      obtain ⟨p, -, h⟩ := Except.bind_eq_ok.mp h
      obtain ⟨⟨ps, rest⟩, -, h⟩ := Except.bind_eq_ok.mp h
      cases h
      simp [ObjectMember.isSpread]
    | method => cases h

/-- The parts of a sample that are met in an expression are met in the pattern of it, or in what the
pattern does not hold of the expression. -/
def Regrouped (q : Visit → Bool) (vs ws dropped : List Visit) : Prop :=
  (vs.filter q).Perm (ws.filter q ++ dropped.filter q)

namespace Regrouped
variable {q : Visit → Bool} {vs ws us vs' ws' us' xs : List Visit}

theorem kept (vs : List Visit) : Regrouped q vs vs [] := by simp [Regrouped]

theorem dropped (vs : List Visit) : Regrouped q vs [] vs := by simp [Regrouped]

/-- What is met in all of some parts, one after the other, may be met in another order. -/
theorem append (h : Regrouped q vs ws us) (h' : Regrouped q vs' ws' us')
    (hx : xs.Perm (ws ++ ws')) : Regrouped q (vs ++ vs') xs (us ++ us') := by
  classical
  refine List.perm_iff_count.mpr fun v => ?_
  have hv := h.count_eq v
  have hv' := h'.count_eq v
  have hxv := (hx.filter q).count_eq v
  simp only [List.filter_append, List.count_append] at *
  omega

/-- The part in front is no part of the sample on either side. -/
theorem of_eq (h : Regrouped q vs ws us) (hv : vs'.filter q = vs.filter q)
    (hw : ws'.filter q = ws.filter q) : Regrouped q vs' ws' us := by
  rwa [Regrouped, hv, hw]

end Regrouped

section Regrouped
set_option linter.unusedSectionVars false
variable {q : Visit → Bool} (hq : OnlyCalls q)
include hq

mutual

/-- A walk meets in an expression what it meets in the pattern of it and in what this does not hold
of the expression. -/
theorem regrouped_toPattern : ∀ (e : Expr) {p : Pattern}, e.toPattern = .ok p →
    Regrouped q e.visits p.visits e.dropped
  | ⟨span, form⟩, _, h => regrouped_formToPattern span form h

theorem regrouped_formToPattern (span : Span) : ∀ (f : ExprForm) {p : Pattern},
    f.toPattern span = .ok p → Regrouped q (Expr.visits ⟨span, f⟩) p.visits f.dropped
  | .ident _, _, h => by
    cases h
    exact (Regrouped.kept []).of_eq (hq.filter_expr (by rintro _ _ _ ⟨⟩)) (hq.filter_pattern _)
  | .member false _ _, _, h | .index false _ _, _, h => by
    cases h
    exact (Regrouped.kept _).of_eq rfl (hq.filter_pattern _)
  | .paren inner, _, h =>
    (regrouped_toPattern inner h).of_eq (hq.filter_expr (by rintro _ _ _ ⟨⟩)) rfl
  | .assignment op target value, _, h => by
    cases op with
    | assign =>
      obtain ⟨p, hp, h⟩ := Except.bind_eq_ok.mp h
      cases h
      have ht := (regrouped_toPattern target hp).append (.kept value.visits) (.refl _)
      rw [List.append_nil] at ht
      exact ht.of_eq (hq.filter_expr (by rintro _ _ _ ⟨⟩)) (hq.filter_pattern _)
    | _ => cases h
  | .array elements, _, h => by
    obtain ⟨⟨ps, rest⟩, hr, h⟩ := Except.bind_eq_ok.mp h
    cases h
    exact (regrouped_arrayTargets elements hr).of_eq (hq.filter_expr (by rintro _ _ _ ⟨⟩))
      (hq.filter_pattern _)
  | .object members, _, h => by
    obtain ⟨⟨ps, rest⟩, hr, h⟩ := Except.bind_eq_ok.mp h
    cases h
    exact (regrouped_objectTargets span members hr).of_eq (hq.filter_expr (by rintro _ _ _ ⟨⟩))
      (hq.filter_pattern _)

theorem regrouped_arrayTargets : ∀ (es : List (Option Expr)) {ps : List (Option Pattern)}
    {rest : Option Pattern}, arrayTargets es = .ok (ps, rest) →
    Regrouped q (visitsOfElements es) (visitsOfPositions ps ++ visitsOfPattern? rest)
      (droppedElements es)
  | [], _, _, h => by
    cases h
    exact .kept []
  | none :: es, _, _, h => by
    obtain ⟨⟨ps, rest⟩, hr, h⟩ := Except.bind_eq_ok.mp h
    cases h
    have hes := regrouped_arrayTargets es hr
    exact hes
  | some ⟨span, form⟩ :: es, ps, rest, h => by
    by_cases hs : ∃ inner, form = .spread inner
    · match form, hs with
      | .spread inner, _ =>
        obtain ⟨p, hp, h⟩ := Except.bind_eq_ok.mp h
        obtain ⟨⟨ps, rest⟩, hr, h⟩ := Except.bind_eq_ok.mp h
        cases h
        have hes := regrouped_arrayTargets es hr
        have hf : (visitsOfElements (some ⟨span, .spread inner⟩ :: es)).filter q
            = (inner.visits ++ visitsOfElements es).filter q := by
          rw [visitsOfElements, visitsOfExpr?, List.filter_append,
            hq.filter_expr (by rintro _ _ _ ⟨⟩), List.filter_append, ExprForm.visits]
        rw [droppedElements, ← isSome_rest_of_arrayTargets hr]
        cases rest with
        | none =>
          refine ((regrouped_toPattern inner hp).append hes ?_).of_eq hf rfl
          simpa [visitsOfPattern?] using List.perm_append_comm
        | some r => exact ((Regrouped.dropped inner.visits).append hes (.refl _)).of_eq hf rfl
    · have hn : ∀ inner, form = .spread inner → False := fun inner h => hs ⟨inner, h⟩
      rw [arrayTargets.eq_4 _ _ _ hn] at h
      obtain ⟨p, hp, h⟩ := Except.bind_eq_ok.mp h
      obtain ⟨⟨ps, rest⟩, hr, h⟩ := Except.bind_eq_ok.mp h
      cases h
      rw [droppedElements.eq_4 _ _ _ hn]
      refine (regrouped_formToPattern span form hp).append (regrouped_arrayTargets es hr) ?_
      simp [visitsOfPositions, visitsOfPattern?]

theorem regrouped_objectTargets (span : Span) : ∀ (ms : List ObjectMember)
    {ps : List PatternProperty} {rest : Option Pattern}, objectTargets span ms = .ok (ps, rest) →
    Regrouped q (visitsOfMembers ms) (visitsOfProperties ps ++ visitsOfPattern? rest)
      (droppedMembers ms)
  | [], _, _, h => by
    cases h
    exact .kept []
  | .property key value shorthand :: ms, _, _, h => by
    obtain ⟨p, hp, h⟩ := Except.bind_eq_ok.mp h
    obtain ⟨⟨ps, rest⟩, hr, h⟩ := Except.bind_eq_ok.mp h
    cases h
    have hv := (Regrouped.kept key.visits).append (regrouped_toPattern value hp) (.refl _)
    refine hv.append (regrouped_objectTargets span ms hr) ?_
    simp [visitsOfProperties, PatternProperty.visits]
  | .spread value :: ms, _, _, h => by
    obtain ⟨p, hp, h⟩ := Except.bind_eq_ok.mp h
    obtain ⟨⟨ps, rest⟩, hr, h⟩ := Except.bind_eq_ok.mp h
    cases h
    have hms := regrouped_objectTargets span ms hr
    rw [droppedMembers, ← isSome_rest_of_objectTargets hr]
    cases rest with
    | none =>
      refine (regrouped_toPattern value hp).append hms ?_
      simpa [visitsOfPattern?] using List.perm_append_comm
    | some r => exact (Regrouped.dropped value.visits).append hms (.refl _)

end

mutual

/-- Where nothing follows a spread part, a walk meets the same in an expression and in the pattern
of it, and in the same order. -/
theorem filter_toPattern : ∀ (e : Expr) {p : Pattern}, e.toPattern = .ok p → e.restLast = true →
    p.visits.filter q = e.visits.filter q
  | ⟨span, form⟩, _, h, hl => filter_formToPattern span form h hl

theorem filter_formToPattern (span : Span) : ∀ (f : ExprForm) {p : Pattern},
    f.toPattern span = .ok p → f.restLast = true →
    p.visits.filter q = (Expr.visits ⟨span, f⟩).filter q
  | .ident _, _, h, _ => by
    cases h
    rw [hq.filter_expr (by rintro _ _ _ ⟨⟩), hq.filter_pattern]
    rfl
  | .member false _ _, _, h, _ | .index false _ _, _, h, _ => by
    cases h
    exact hq.filter_pattern _
  | .paren inner, _, h, hl => by
    rw [hq.filter_expr (by rintro _ _ _ ⟨⟩)]
    exact filter_toPattern inner h hl
  | .assignment op target value, _, h, hl => by
    cases op with
    | assign =>
      obtain ⟨p, hp, h⟩ := Except.bind_eq_ok.mp h
      cases h
      rw [hq.filter_expr (by rintro _ _ _ ⟨⟩), hq.filter_pattern, PatternForm.visits,
        ExprForm.visits, List.filter_append, List.filter_append, filter_toPattern target hp hl]
    | _ => cases h
  | .array elements, _, h, hl => by
    obtain ⟨⟨ps, rest⟩, hr, h⟩ := Except.bind_eq_ok.mp h
    cases h
    rw [hq.filter_expr (by rintro _ _ _ ⟨⟩), hq.filter_pattern]
    exact filter_arrayTargets elements hr hl
  | .object members, _, h, hl => by
    obtain ⟨⟨ps, rest⟩, hr, h⟩ := Except.bind_eq_ok.mp h
    cases h
    rw [hq.filter_expr (by rintro _ _ _ ⟨⟩), hq.filter_pattern]
    exact filter_objectTargets span members hr hl

theorem filter_arrayTargets : ∀ (es : List (Option Expr)) {ps : List (Option Pattern)}
    {rest : Option Pattern}, arrayTargets es = .ok (ps, rest) → restLastOfElements es = true →
    (visitsOfPositions ps ++ visitsOfPattern? rest).filter q = (visitsOfElements es).filter q
  | [], _, _, h, _ => by
    cases h
    rfl
  | none :: es, _, _, h, hl => by
    obtain ⟨⟨ps, rest⟩, hr, h⟩ := Except.bind_eq_ok.mp h
    cases h
    have hes := filter_arrayTargets es hr hl
    exact hes
  | some ⟨span, form⟩ :: es, ps, rest, h, hl => by
    by_cases hs : ∃ inner, form = .spread inner
    · match form, hs with
      | .spread inner, _ =>
        simp only [restLastOfElements, Bool.and_eq_true, List.isEmpty_iff] at hl
        obtain ⟨rfl, hl⟩ := hl
        obtain ⟨p, hp, h⟩ := Except.bind_eq_ok.mp h
        cases h
        rw [visitsOfElements, visitsOfElements, List.append_nil, visitsOfExpr?,
          hq.filter_expr (by rintro _ _ _ ⟨⟩)]
        exact filter_toPattern inner hp hl
    · have hn : ∀ inner, form = .spread inner → False := fun inner h => hs ⟨inner, h⟩
      rw [arrayTargets.eq_4 _ _ _ hn] at h
      rw [restLastOfElements.eq_4 _ _ _ hn, Bool.and_eq_true] at hl
      obtain ⟨p, hp, h⟩ := Except.bind_eq_ok.mp h
      obtain ⟨⟨ps, rest⟩, hr, h⟩ := Except.bind_eq_ok.mp h
      cases h
      have hf := filter_formToPattern span form hp hl.1
      have hes := filter_arrayTargets es hr hl.2
      rw [visitsOfElements, visitsOfPositions, List.append_assoc, List.filter_append,
        List.filter_append (visitsOfExpr? _), hes, visitsOfPattern?, visitsOfExpr?, hf]

theorem filter_objectTargets (span : Span) : ∀ (ms : List ObjectMember)
    {ps : List PatternProperty} {rest : Option Pattern}, objectTargets span ms = .ok (ps, rest) →
    restLastOfMembers ms = true →
    (visitsOfProperties ps ++ visitsOfPattern? rest).filter q = (visitsOfMembers ms).filter q
  | [], _, _, h, _ => by
    cases h
    rfl
  | .property key value shorthand :: ms, _, _, h, hl => by
    obtain ⟨p, hp, h⟩ := Except.bind_eq_ok.mp h
    obtain ⟨⟨ps, rest⟩, hr, h⟩ := Except.bind_eq_ok.mp h
    cases h
    rw [restLastOfMembers, Bool.and_eq_true] at hl
    have hv := filter_toPattern value hp hl.1
    have hms := filter_objectTargets span ms hr hl.2
    rw [visitsOfMembers, visitsOfProperties, ObjectMember.visits, PatternProperty.visits,
      List.append_assoc, List.filter_append, hms, List.filter_append, hv, List.filter_append,
      List.filter_append]
  | .spread value :: ms, _, _, h, hl => by
    rw [restLastOfMembers, Bool.and_eq_true, List.isEmpty_iff] at hl
    obtain ⟨rfl, hl⟩ := hl
    obtain ⟨p, hp, h⟩ := Except.bind_eq_ok.mp h
    cases h
    rw [visitsOfMembers, visitsOfMembers, List.append_nil]
    exact filter_toPattern value hp hl

end
end Regrouped

/-- Of the calls of `require` in an expression, its pattern has all but those in a spread part that
another one follows, and has them in the same order if spread parts come last. -/
theorem Expr.requires_toPattern {e : Expr} {p : Pattern} (h : e.toPattern = .ok p) :
    (e.visits.filter Visit.isRequire).Perm
        (p.visits.filter Visit.isRequire ++ e.dropped.filter Visit.isRequire) ∧
      (e.restLast = true →
        p.visits.filter Visit.isRequire = e.visits.filter Visit.isRequire) :=
  ⟨regrouped_toPattern onlyCalls_isRequire e h, filter_toPattern onlyCalls_isRequire e h⟩

/-- The call in `[...require()[i], ...b]` is in no part of the pattern. -/
example (s : Span) : ∃ p, Expr.toPattern ⟨s, .array [
      some ⟨s, .spread ⟨s, .index false ⟨s, .call false ⟨s, .ident "require"⟩ []⟩ ⟨s, .ident "i"⟩⟩⟩,
      some ⟨s, .spread ⟨s, .ident "b"⟩⟩]⟩ = .ok p ∧ p.visits.filter Visit.isRequire = [] :=
  ⟨_, rfl, rfl⟩

end ModuleBundler
