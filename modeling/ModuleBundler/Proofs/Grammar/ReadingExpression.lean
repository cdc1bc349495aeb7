import ModuleBundler.Proofs.Grammar.Operator
import ModuleBundler.Proofs.Grammar.Reading

/-! The account of what the readers of expressions read. -/
namespace ModuleBundler
open Outline

/-- The token can follow an expression without opening or closing a bracket. -/
theorem Continuation.neutral_of_ofToken? {kind : TokenKind} {k : Continuation}
    (h : Continuation.ofToken? kind = some k) :
    kind ≠ .eof ∧ (k = .index ∧ kind = .punct .lBracket ∨ k = .call ∧ kind = .punct .lParen
      ∨ k = .template ∧ (kind = .noSubstitutionTemplate ∨ kind = .templateHead)
      ∨ k ≠ .index ∧ k ≠ .call ∧ k ≠ .template ∧ Bracket.Neutral kind) := by
  cases kind with
  | punct p =>
    cases p <;> simp [ofToken?, AssignmentOp.ofToken?, BinaryOp.ofToken?] at h <;> subst h <;>
      simp [Bracket.Neutral, Bracket.step]
  | keyword w =>
    cases w <;> simp [ofToken?, AssignmentOp.ofToken?, BinaryOp.ofToken?] at h <;> subst h <;>
      simp [Bracket.Neutral, Bracket.step]
  | _ =>
    simp [ofToken?, AssignmentOp.ofToken?, BinaryOp.ofToken?] at h <;> subst h <;> simp

/-- A fixed text after a parenthesis is an argument. -/
theorem argumentsAt_pos {c c' : Cursor} {w : List Token} (hw : c.next.Moves w c')
    (hl : 0 < w.length) (hp : c.current.kind = .punct .lParen)
    (ht : c.next.current.kind.isText = true) :
    0 < argumentsAt c.next.current.span c.previous (c.current :: w) := by
  cases w with
  | nil => cases hl
  | cons t w =>
    obtain ⟨rfl, -⟩ := List.cons.inj hw.tokens
    have harg : c.current.isArgument c.next.current = true := by simp [Token.isArgument, hp, ht]
    have htail : 0 < argumentsAt c.next.current.span c.current (c.next.current :: w) := by
      rw [argumentsAt, if_pos ⟨harg, rfl⟩]
      omega
    rw [argumentsAt]
    exact Nat.add_pos_right _ htail

/-- What an expression becomes with the tokens after it: they account for all that it does not
have already, and it is the first part of the longer one. -/
structure Expr.GrowsTo (left : Expr) (form : ExprForm) (c c' : Cursor) : Prop where
  text : form.isText = false
  takes : ∀ span, ∃ vs os, Takes true c vs os c' ∧ form.outlines = left.outline :: os ∧
    ∀ T : Tally, T.count (Expr.visits ⟨span, form⟩) ≤ T.count (left.visits ++ vs)

namespace Expr
variable {left : Expr} {form : ExprForm} {c c₁ c₂ : Cursor} {vs : List Visit} {os : List Outline}

theorem GrowsTo.of_takes (hp : form.isPlain = true) (ht : form.isText = false)
    (takes : Takes true c vs os c₁) (hv : form.visits = left.visits ++ vs)
    (ho : form.outlines = left.outline :: os) : left.GrowsTo form c c₁ := by
  refine ⟨ht, fun span => ⟨vs, os, takes, ho, fun T => Nat.le_of_eq ?_⟩⟩
  rw [Expr.visits, Tally.count_plain hp, hv]

theorem ReadAt.growsTo (h : left.ReadAt c c₁) (hf : left.GrowsTo form c₁ c₂) :
    Expr.ReadAt ⟨left.span.merge c₂.previous.span, form⟩ c c₂ := by
  obtain ⟨vs, os, hr, ho, hv⟩ := hf.takes (left.span.merge c₂.previous.span)
  have r := (h.fills.extend hr).mono hv
  rw [extent_outline, ← ho] at r
  exact .of_fills hf.text r

/-- The span of what an expression becomes can also be taken from the place where it starts. -/
theorem ReadAt.growsTo_from (h : left.ReadAt c c₁) (hf : left.GrowsTo form c₁ c₂) :
    Expr.ReadAt ⟨c.current.span.merge c₂.previous.span, form⟩ c c₂ := by
  obtain ⟨vs, os, hr, ho, hv⟩ := hf.takes (c.current.span.merge c₂.previous.span)
  have r : Takes true c (left.visits ++ vs) (left.outline :: os) c₂ := h.takes.trans hr
  rw [← ho] at r
  exact .of_fills hf.text (r.mono hv).fills

end Expr

namespace Grammar.Accounts
variable {g : Grammar} (hg : g.Accounts) {m : Bool} {b : Bool} {c c' c₀ : Cursor}
  {s s' : List Bracket}
open ModuleBundler.Parser
include hg

theorem spreadOrAssignment {e : Expr} (h : g.spreadOrAssignment b c = .ok e c') :
    e.ReadAt c c' := by
  simp only [Grammar.spreadOrAssignment, bind_ok, here_ok, if_apply] at h
  obtain ⟨_, _, ⟨rfl, rfl⟩, r, c₁, hr, h⟩ := h
  split at h
  · simp only [bind_ok, pure_ok] at h
    obtain ⟨e, c₂, he, rfl, rfl⟩ := h
    have r := Fills.after (.eat hr fun _ => rfl) (hg.assignment he).fills
    rw [Expr.extent_outline] at r
    exact .of_fills rfl (r.plain rfl)
  · next hf =>
    obtain rfl := eat_stays hr hf
    exact hg.assignment h

/-- The arguments of a call account for the call as well: if it is counted, its one argument is a
text after the parenthesis. -/
theorem arguments {args : List Expr} (h : g.arguments b c = .ok args c') (span : Span)
    (optional : Bool) (callee : Expr) :
    Takes true c (.expr ⟨span, .call optional callee args⟩ :: visitsOfExprs args)
      (outlinesOfExprs args) c' := by
  simp only [Grammar.arguments, bind_ok, withIn_apply, pure_ok] at h
  obtain ⟨_, c₁, h₁, as, c₂, h₂, _, c₃, h₃, rfl, rfl⟩ := h
  have r₁ : Reads true [] c [] [] [.paren] c₁ := .consumeMark h₁ rfl
  have r₂ : Takes false c₁ (visitsOfExprs as) (outlinesOfExprs as) c₂ := by
    rw [visits_exprs, outlines_exprs]
    exact separated_takes Expr.visits (fun e => [e.outline])
      (fun h => (hg.spreadOrAssignment h).takes) h₂
  have inner : Reads true [.paren] c₁ (visitsOfExprs as) (outlinesOfExprs as) [] c₃ :=
    r₂.within.past (.consumeMark h₃ rfl)
  intro hc
  obtain ⟨w, hw, hs, hm, hvs, hos⟩ := (r₁.trans inner) hc
  refine ⟨w, hw, hs, hm, fun T => ?_, hos⟩
  by_cases hp : T.picks (.expr ⟨span, .call optional callee as⟩) = true
  · cases T with
    | uneven => simp [Tally.picks, Visit.alternates, ExprForm.alternates] at hp
    | calls sp =>
      obtain ⟨specifier, hcall⟩ := Visit.isCallAt_expr hp
      obtain ⟨_, arg, hform, -, ht, rfl⟩ := Expr.requireCall?_static hcall
      cases hform
      have ht : arg.staticString?.isSome := by rw [ht]; rfl
      obtain ⟨_, hi⟩ := many_cons h₂
      simp only [bind_ok, pure_ok] at hi
      obtain ⟨e, d, he, _, _, -, rfl, -⟩ := hi
      obtain ⟨hk, rfl⟩ := consumeMark_ok h₁
      have hnext := Cursor.moves_next hc (Cursor.atEnd_of_sees hk)
      obtain ⟨w₁, hw₁, -, hl, -⟩ := inner (hnext.ended hc)
      obtain ⟨-, htext, hspan⟩ :=
        (hg.spreadOrAssignment he).text (Expr.isText_of_static ht) (hnext.ended hc)
      obtain rfl := hw.unique (hnext.trans hw₁)
      have hpos := argumentsAt_pos hw₁ (hl rfl) (Cursor.kind_of_sees hk) htext
      rw [Tally.count, List.countP_cons_of_pos hp, ← Tally.count, visitsOfExprs,
        Tally.count_append, Tally.count_calls_static ht, hspan]
      exact hpos
  · rw [Tally.count, List.countP_cons_of_neg hp]
    exact hvs T

theorem templatePart {r : String × Expr} (hs : Bracket.step s c.current.kind = some s')
    (h : g.templatePart b c = .ok r c') : Reads true s c r.2.visits [r.2.outline] s' c' := by
  simp only [Grammar.templatePart, bind_ok, advance_ok, pure_ok] at h
  obtain ⟨_, _, ⟨-, rfl⟩, e, c₁, he, rfl, rfl⟩ := h
  have hend : c.atEnd = false := by
    cases hk : c.current.kind <;> simp_all [Cursor.atEnd, Bracket.step]
  exact (Reads.next hend hs).trans (hg.enclosed he).takes.within

/-- A template without expressions is a text, that is one token. -/
theorem template {r : List String × List Expr}
    (hk : c.current.kind = .noSubstitutionTemplate ∨ c.current.kind = .templateHead)
    (h : g.template b c = .ok r c') :
    Takes true c (visitsOfExprs r.2) (outlinesOfExprs r.2) c' ∧ r.1.length = r.2.length + 1 ∧
      (r.2 = [] → c.Ended → c.Moves [c.current] c' ∧ c.current.kind.isText = true) := by
  simp only [Grammar.template, bind_ok, get_ok, if_apply] at h
  obtain ⟨_, _, ⟨rfl, rfl⟩, h⟩ := h
  split at h
  · next hs =>
    simp only [bind_ok, advance_ok, pure_ok] at h
    obtain ⟨_, _, ⟨-, rfl⟩, rfl, rfl⟩ := h
    refine ⟨.next_of_sees hs rfl, rfl, fun _ hc => ?_⟩
    refine ⟨Cursor.moves_next hc (Cursor.atEnd_of_sees hs), ?_⟩
    rw [Cursor.kind_of_sees hs]
    rfl
  · next hn =>
    have hk : c.current.kind = .templateHead := by
      refine hk.resolve_left fun hk => hn ?_
      simp [Cursor.sees, Cursor.atEnd, hk]
    simp only [bind_ok, if_apply] at h
    obtain ⟨first, c₁, h₁, parts, c₂, h₂, _, _, hget, h⟩ := h
    obtain ⟨rfl, rfl⟩ := get_ok.mp hget
    split at h
    · next ht =>
      simp only [bind_ok, advance_ok, pure_ok] at h
      obtain ⟨_, _, ⟨-, rfl⟩, rfl, rfl⟩ := h
      refine ⟨?_, by simp, by rintro ⟨⟩⟩
      have r₁ : Reads true [] c first.2.visits [first.2.outline] [.template] c₁ :=
        hg.templatePart (by rw [hk]; rfl) h₁
      have r₂ := many_reads (s := [.template]) (fun r : String × Expr => r.2.visits)
        (fun r => [r.2.outline]) (fun hs h => hg.templatePart (by
          rw [Cursor.kind_of_sees hs]
          rfl) h) h₂
      have r₃ : Reads true [.template] c₂ [] [] [] c₂.next := .next_of_sees ht rfl
      simpa [visitsOfExprs, outlinesOfExprs, visits_exprs, outlines_exprs, List.flatMap_map]
        using r₁.trans (r₂.past r₃)
    · cases fail_ok h

theorem indexTail {e : Expr} (h : g.indexTail b c = .ok e c') :
    Reads true [.square] c e.visits [e.outline] [] c' := by
  simp only [Grammar.indexTail, bind_ok, pure_ok] at h
  obtain ⟨e, c₁, he, _, c₂, h₂, rfl, rfl⟩ := h
  exact (hg.enclosed he).takes.within.past (.consumeMark h₂ rfl)

theorem call {left : Expr} {args : List Expr} (optional : Bool)
    (h : g.arguments b c = .ok args c') : left.GrowsTo (.call optional left args) c c' := by
  refine ⟨rfl, fun span => ⟨_, _, hg.arguments h span optional left, rfl, fun T => ?_⟩⟩
  simp only [Expr.visits, ExprForm.visits, Tally.count, List.countP_cons, List.countP_append]
  omega

theorem optionalTail {left : Expr} {form : ExprForm} (h : g.optionalTail left b c = .ok form c') :
    left.GrowsTo form c c' := by
  simp only [Grammar.optionalTail, bind_ok, get_ok, if_apply] at h
  obtain ⟨_, _, ⟨rfl, rfl⟩, h⟩ := h
  split at h
  · obtain ⟨args, c₁, ha, h⟩ := bind_ok.mp h
    obtain ⟨rfl, rfl⟩ := pure_ok.mp h
    exact hg.call true ha
  · obtain ⟨r, c₁, hr, h⟩ := bind_ok.mp h
    rw [if_apply] at h
    split at h
    · next ht =>
      subst ht
      obtain ⟨e, c₂, he, h⟩ := bind_ok.mp h
      obtain ⟨rfl, rfl⟩ := pure_ok.mp h
      exact .of_takes rfl rfl (Reads.trans (.eat_true hr rfl) (hg.indexTail he)) rfl rfl
    · next hf =>
      obtain ⟨i, c₂, hi, h⟩ := bind_ok.mp h
      obtain ⟨rfl, rfl⟩ := pure_ok.mp h
      obtain rfl := eat_stays hr hf
      exact .of_takes rfl rfl (propertyName_fills hi).takes (by simp [ExprForm.visits]) rfl

theorem continueWith {left : Expr} {form : ExprForm} {precedence : Nat} {k : Continuation}
    (hk : Continuation.ofToken? c.current.kind = some k)
    (h : g.continueWith left precedence k b c = .ok form c') : left.GrowsTo form c c' := by
  obtain ⟨hend, hn⟩ := Continuation.neutral_of_ofToken? hk
  have hend : c.atEnd = false := by simpa [Cursor.atEnd] using hend
  have pass (hp : k ≠ .index ∧ k ≠ .call ∧ k ≠ .template) : Takes true c [] [] c.next := by
    simp only [hp, false_and, false_or, ne_eq, not_false_eq_true, true_and] at hn
    exact .next hend (hn [])
  cases k with
  | call =>
    obtain ⟨args, c₁, ha, h⟩ := bind_ok.mp h
    obtain ⟨rfl, rfl⟩ := pure_ok.mp h
    exact hg.call false ha
  | template =>
    obtain ⟨⟨texts, exprs⟩, c₁, ht, h⟩ := bind_ok.mp h
    obtain ⟨rfl, rfl⟩ := pure_ok.mp h
    obtain ⟨hr, hl, -⟩ := hg.template (by simpa using hn) ht
    exact .of_takes (by simpa [ExprForm.isPlain, ExprForm.alternates] using hl) rfl hr rfl rfl
  | index =>
    simp only [Grammar.continueWith, bind_ok, advance_ok, pure_ok] at h
    obtain ⟨_, _, ⟨-, rfl⟩, e, c₂, he, rfl, rfl⟩ := h
    have hn : c.current.kind = .punct .lBracket := by simpa using hn
    have r₁ : Reads true [] c [] [] [.square] c.next := .next hend (by rw [hn]; rfl)
    exact .of_takes rfl rfl (r₁.trans (hg.indexTail he)) rfl rfl
  | assignment op | binary op =>
    have r₁ := pass (by simp)
    simp only [Grammar.continueWith, bind_ok, advance_ok, pure_ok] at h
    obtain ⟨_, _, ⟨-, rfl⟩, e, c₂, he, rfl, rfl⟩ := h
    exact .of_takes rfl rfl (r₁.trans (hg.expression he).takes) rfl rfl
  | conditional =>
    have r₁ := pass (by simp)
    simp only [Grammar.continueWith, bind_ok, advance_ok, withIn_apply, pure_ok] at h
    obtain ⟨_, _, ⟨-, rfl⟩, yes, c₂, hy, _, c₃, hc, no, c₄, hno, rfl, rfl⟩ := h
    have r₂ : Takes true c₂ [] [] c₃ := .consumeMark hc rfl
    exact .of_takes rfl rfl (r₁.trans ((hg.assignment hy).takes.trans
      (r₂.trans (hg.assignment hno).takes))) rfl rfl
  | increment op =>
    have r₁ := pass (by simp)
    simp only [Grammar.continueWith, bind_ok, advance_ok, pure_ok] at h
    obtain ⟨_, _, ⟨-, rfl⟩, rfl, rfl⟩ := h
    exact .of_takes rfl rfl r₁ (by simp [ExprForm.visits]) rfl
  | member =>
    have r₁ := pass (by simp)
    simp only [Grammar.continueWith, bind_ok, advance_ok, pure_ok] at h
    obtain ⟨_, _, ⟨-, rfl⟩, i, c₂, hi, rfl, rfl⟩ := h
    exact .of_takes rfl rfl (r₁.trans (propertyName_fills hi).takes) (by simp [ExprForm.visits]) rfl
  | optional =>
    have r₁ := pass (by simp)
    simp only [Grammar.continueWith, bind_ok, advance_ok] at h
    obtain ⟨_, _, ⟨-, rfl⟩, h⟩ := h
    obtain ⟨hp, hf⟩ := hg.optionalTail h
    refine ⟨hp, fun span => ?_⟩
    obtain ⟨vs, os, hr, hform⟩ := hf span
    exact ⟨vs, os, r₁.trans hr, hform⟩

theorem extend {e left : Expr} (hl : left.ReadAt c₀ c) (h : g.extend left b c = .ok e c') :
    e.ReadAt c₀ c' := by
  rw [extend_apply] at h
  cases hk : Continuation.ofToken? c.current.kind with
  | some k =>
    simp only [hk, Option.elim_some, bind_ok, spanFrom_ok, pure_ok] at h
    obtain ⟨form, c₁, hf, _, _, ⟨rfl, rfl⟩, rfl, rfl⟩ := h
    exact hl.growsTo (hg.continueWith hk hf)
  | none =>
    simp only [hk, Option.elim_none, pure_ok] at h
    obtain ⟨rfl, rfl⟩ := h
    exact hl

theorem extend_takes {e left : Expr} {k : Continuation}
    (hk : Continuation.ofToken? c.current.kind = some k) (h : g.extend left b c = .ok e c') :
    ∃ vs os, Takes true c vs os c' := by
  simp only [extend_apply, hk, Option.elim_some, bind_ok, spanFrom_ok, pure_ok] at h
  obtain ⟨form, c₁, hf, _, _, ⟨rfl, rfl⟩, rfl, rfl⟩ := h
  obtain ⟨vs, os, hr, -⟩ := (hg.continueWith hk hf).takes .nowhere
  exact ⟨vs, os, hr⟩

theorem arrayLiteral {f : ExprForm} (h : g.arrayLiteral b c = .ok f c') :
    ∃ es, f = .array es ∧ Takes true c (visitsOfElements es) (outlinesOfElements es) c' := by
  simp only [Grammar.arrayLiteral, bind_ok, pure_ok] at h
  obtain ⟨_, c₁, h₁, es, c₂, h₂, _, c₃, h₃, rfl, rfl⟩ := h
  have r₂ : Takes false c₁ (es.flatMap visitsOfExpr?) (es.flatMap outlinesOfExpr?) c₂ := by
    refine many_takes (m := false) _ _ (fun h => ?_) h₂
    simp only [bind_ok, if_apply] at h
    obtain ⟨r, d, hr, h⟩ := h
    have r₁ : Takes false _ [] [] d := .eat hr fun _ => rfl
    split at h
    · obtain ⟨rfl, rfl⟩ := pure_ok.mp h
      exact r₁
    · simp only [bind_ok, pure_ok] at h
      obtain ⟨e, d₂, he, _, d₃, hs, rfl, rfl⟩ := h
      exact (r₁.trans ((hg.spreadOrAssignment he).takes.past (separator_takes hs))).weaken
  rw [← visits_elements, ← outlines_elements] at r₂
  exact ⟨es, rfl, .between h₁ rfl r₂ h₃ rfl⟩

theorem propertyOrMethod {m : ObjectMember} (h : g.propertyOrMethod b c = .ok m c') :
    Takes true c m.visits m.outlines c' := by
  simp only [Grammar.propertyOrMethod, bind_ok, get_ok, if_apply] at h
  obtain ⟨_, c₁, h₁, key, c₂, h₂, _, _, ⟨rfl, rfl⟩, h⟩ := h
  have r₁ := modifiers h₁
  split at h
  · obtain ⟨fn, c₃, hf, h⟩ := bind_ok.mp h
    obtain ⟨rfl, rfl⟩ := pure_ok.mp h
    obtain ⟨ps, body, rfl, r₃⟩ := hg.functionTail hf
    exact r₁.trans ((hg.propertyKey h₂).trans (r₃.visit (by simp)))
  · split at h
    · cases fail_ok h
    · obtain ⟨t, c₃, ht, hp⟩ := bind_ok.mp h
      rw [if_apply] at hp
      split at hp
      · obtain ⟨e, c₄, he, hp⟩ := bind_ok.mp hp
        obtain ⟨rfl, rfl⟩ := pure_ok.mp hp
        rw [ObjectMember.outlines, outlinesOfProperty_false]
        have r₃ : Takes false c₂ [] [] c₃ := .eat ht fun _ => rfl
        exact r₁.trans ((hg.propertyKey h₂).trans (r₃.trans (hg.assignment he).takes))
      · next hf =>
        obtain rfl := eat_stays ht hf
        split at hp
        · next i =>
          obtain ⟨rfl, rfl⟩ := pure_ok.mp hp
          have hi := (propertyKey_name h₂).takes
          have hv : Takes true c₁ (Expr.visits ⟨i.span, .ident i.name⟩)
              [Expr.outline ⟨i.span, .ident i.name⟩] c₃ := hi.plain rfl
          exact r₁.trans (hi.shorthand .refl hv)
        · cases fail_ok hp

theorem objectMember {m : ObjectMember} (h : g.objectMember b c = .ok m c') :
    Takes true c m.visits m.outlines c' := by
  simp only [Grammar.objectMember, bind_ok, if_apply] at h
  obtain ⟨r, c₁, hr, h⟩ := h
  have r₁ : Takes false c [] [] c₁ := .eat hr fun _ => rfl
  split at h
  · obtain ⟨e, c₂, he, h⟩ := bind_ok.mp h
    obtain ⟨rfl, rfl⟩ := pure_ok.mp h
    exact r₁.trans (hg.assignment he).takes
  · exact r₁.trans (hg.propertyOrMethod h)

theorem objectLiteral {f : ExprForm} (h : g.objectLiteral b c = .ok f c') :
    ∃ ms, f = .object ms ∧ Takes true c (visitsOfMembers ms) (outlinesOfMembers ms) c' := by
  simp only [Grammar.objectLiteral, bind_ok, pure_ok] at h
  obtain ⟨_, c₁, h₁, ms, c₂, h₂, rfl, rfl⟩ := h
  refine ⟨ms, rfl, ?_⟩
  rw [visits_members, outlines_members]
  exact Reads.trans (.consumeMark h₁ rfl)
    (commaList_reads ObjectMember.visits ObjectMember.outlines rfl hg.objectMember h₂)

/-! ## Arrow functions and names -/

/-- An arrow function has its parameters before the arrow and its body after it. -/
theorem arrowTail {ps : List Param} {isAsync : Bool} {e : Expr}
    (hp : Takes m c₀ (visitsOfParams ps) (outlinesOfParams ps) c)
    (h : g.arrowTail c₀.current.span ps isAsync b c = .ok e c') : e.ReadAt c₀ c' := by
  simp only [Grammar.arrowTail, Grammar.arrowBody, bind_ok, get_ok, if_apply, spanFrom_ok,
    pure_ok] at h
  obtain ⟨_, c₁, h₁, form, c₂, ⟨_, _, ⟨rfl, rfl⟩, h⟩, _, _, ⟨rfl, rfl⟩, rfl, rfl⟩ := h
  have r : Takes true c₀ (visitsOfParams ps) (outlinesOfParams ps) c₁ := by
    simpa using hp.past (.consumeMark h₁ rfl)
  split at h
  · obtain ⟨bl, hb, rfl⟩ := map_ok.mp h
    exact .of_takes rfl rfl (r.trans (hg.block hb).takes)
  · obtain ⟨body, hb, rfl⟩ := map_ok.mp h
    exact .of_takes rfl rfl (r.trans (hg.assignment hb).takes)

omit hg in
theorem arrowParams {ps : Option (List Param)} (h : g.arrowParams b c = .ok ps c') :
    (∃ ps', ps = some ps' ∧ g.params b c = .ok ps' c') ∨ ps = none ∧ c' = c := by
  unfold Grammar.arrowParams at h
  split at h
  · next hp =>
    split at h
    · cases h
      exact .inl ⟨_, rfl, hp⟩
    · cases h
      exact .inr ⟨rfl, rfl⟩
  · cases h
    exact .inr ⟨rfl, rfl⟩

omit hg in
theorem identExpr {e : Expr} (h : identExpr b c = .ok e c') : e.ReadAt c c' := by
  simp only [Grammar.identExpr, bind_ok, pure_ok] at h
  obtain ⟨i, _, hi, rfl, rfl⟩ := h
  exact .of_fills rfl ((ident_fills hi).plain rfl)

omit hg in
theorem bareParam {p : Param} (h : bareParam b c = .ok p c') :
    Takes true c (visitsOfParams [p]) (outlinesOfParams [p]) c' := by
  simp only [Grammar.bareParam, bind_ok, pure_ok] at h
  obtain ⟨i, _, hi, rfl, rfl⟩ := h
  have hi := ident_fills hi
  exact (hi.takes.fills_of_eq hi.extent).takes.visit (by simp)

omit hg in
theorem identifier (hk : c.current.kind = .identifier) : Takes true c [] [] c.next := by
  refine .next (by simp [Cursor.atEnd, hk]) ?_
  rw [hk]
  rfl

theorem asyncCallOrArrow {e : Expr} (hk : c.current.kind = .identifier)
    (h : g.asyncCallOrArrow c.current.span b c = .ok e c') : e.ReadAt c c' := by
  unfold Grammar.asyncCallOrArrow at h
  split at h
  · next ps c₁ hp =>
    rcases arrowParams hp with ⟨ps', hps, hp⟩ | ⟨hps, -⟩
    · cases hps
      exact hg.arrowTail ((identifier hk).trans (hg.params hp)) h
    · cases hps
  · exact identExpr h

theorem identifierExpression {e : Expr} (hk : c.current.kind = .identifier)
    (h : g.identifierExpression b c = .ok e c') : e.ReadAt c c' := by
  simp only [Grammar.identifierExpression, bind_ok, get_ok, if_apply] at h
  obtain ⟨_, _, ⟨rfl, rfl⟩, h⟩ := h
  split at h
  · obtain ⟨p, c₁, hp, h⟩ := bind_ok.mp h
    exact hg.arrowTail (bareParam hp) h
  split at h
  · generalize c.secondKind? = second at h
    split at h
    · simp only [bind_ok, spanFrom_ok, pure_ok] at h
      obtain ⟨fn, c₁, hf, _, _, ⟨rfl, rfl⟩, rfl, rfl⟩ := h
      exact .of_takes rfl rfl (hg.function hf)
    · rw [if_apply] at h
      split at h
      · simp only [bind_ok, advance_ok] at h
        obtain ⟨_, _, ⟨-, rfl⟩, p, c₁, hp, h⟩ := h
        exact hg.arrowTail ((identifier hk).trans (bareParam hp)) h
      · exact identExpr h
    · exact hg.asyncCallOrArrow hk h
    · exact identExpr h
  · exact identExpr h

theorem parenExpression {e : Expr} (h : g.parenExpression b c = .ok e c') : e.ReadAt c c' := by
  simp only [Grammar.parenExpression, bind_ok, here_ok] at h
  obtain ⟨_, _, ⟨rfl, rfl⟩, ps, c₁, hp, h⟩ := h
  rcases arrowParams hp with ⟨ps', rfl, hp'⟩ | ⟨rfl, rfl⟩
  · exact hg.arrowTail (hg.params hp') h
  · -- What was read as parameters is read again.
    simp only [bind_ok, spanFrom_ok, pure_ok] at h
    obtain ⟨_, c₂, h₁, e, c₃, he, _, c₄, h₃, _, _, ⟨rfl, rfl⟩, rfl, rfl⟩ := h
    exact .of_takes rfl rfl (.between h₁ rfl (hg.enclosed he).takes h₃ rfl)

/-! ## Callees of `new`, and what starts with a bracket or a keyword -/

theorem calleeForm {callee : Expr} {form : ExprForm} (hc : calleeGoesOn c = true)
    (h : g.calleeForm callee b c = .ok form c') : callee.GrowsTo form c c' := by
  simp only [Grammar.calleeForm, bind_ok, if_apply] at h
  obtain ⟨r, c₁, hr, h⟩ := h
  rcases eat_ok hr with ⟨rfl, -, -⟩ | ⟨rfl, hd, hc₁⟩
  · obtain ⟨i, c₂, hi, h⟩ := bind_ok.mp h
    obtain ⟨rfl, rfl⟩ := pure_ok.mp h
    exact .of_takes rfl rfl (Reads.trans (.eat_true hr rfl) (propertyName_fills hi).takes)
      (by simp [ExprForm.visits]) rfl
  subst hc₁
  rw [if_neg Bool.false_ne_true, bind_ok] at h
  obtain ⟨r, c₂, hr, h⟩ := h
  rw [if_apply] at h
  rcases eat_ok hr with ⟨rfl, -, -⟩ | ⟨rfl, hl, hc₂⟩
  · obtain ⟨e, c₃, he, h⟩ := bind_ok.mp h
    obtain ⟨rfl, rfl⟩ := pure_ok.mp h
    exact .of_takes rfl rfl (Reads.trans (.eat_true hr rfl) (hg.indexTail he)) rfl rfl
  subst hc₂
  rw [if_neg Bool.false_ne_true, bind_ok] at h
  obtain ⟨⟨texts, exprs⟩, c₃, ht, h⟩ := h
  obtain ⟨rfl, rfl⟩ := pure_ok.mp h
  have hk : c₂.current.kind = .noSubstitutionTemplate ∨ c₂.current.kind = .templateHead := by
    simp only [calleeGoesOn, Cursor.seesMark, hd, hl, Bool.false_or, Bool.or_eq_true] at hc
    exact hc.imp Cursor.kind_of_sees Cursor.kind_of_sees
  obtain ⟨hr, hl, -⟩ := hg.template hk ht
  exact .of_takes (by simpa [ExprForm.isPlain, ExprForm.alternates] using hl) rfl hr rfl rfl

theorem newCallee {e : Expr} (h : g.newCallee b c = .ok e c') : e.ReadAt c c' := by
  simp only [Grammar.newCallee, bind_ok, here_ok] at h
  obtain ⟨_, _, ⟨rfl, rfl⟩, first, c₁, hf, h⟩ := h
  refine iterate_induction (I := fun e d => Expr.ReadAt e c d) ?_ h (hg.primary hf)
  intro callee d e d' hd hc he
  simp only [Grammar.extendCallee, bind_ok, spanFrom_ok, pure_ok] at he
  obtain ⟨form, d₁, hform, _, _, ⟨rfl, rfl⟩, rfl, rfl⟩ := he
  exact hd.growsTo_from (hg.calleeForm hc hform)

omit hg in
/-- A keyword that is the object of a property stands for a name. -/
theorem keywordName {word : Keyword} {u : Unit} (h : consumeKeyword word b c = .ok u c')
    (name : String) : Takes true c [] [Ident.outline ⟨name, c.current.span⟩] c' := by
  simp only [Parser.consumeKeyword, bind_ok, pure_ok] at h
  obtain ⟨t, _, h, -, rfl⟩ := h
  obtain ⟨hs, -, rfl⟩ := consume_ok h
  refine (Fills.token (Cursor.atEnd_of_sees hs) fun s => ?_).takes
  rw [Cursor.kind_of_sees hs]
  rfl

theorem newExpression {f : ExprForm} (h : g.newExpression b c = .ok f c') :
    (f.isPlain = true ∧ f.isText = false) ∧ Takes true c f.visits f.outlines c' := by
  simp only [Grammar.newExpression, bind_ok, here_ok, if_apply] at h
  obtain ⟨_, _, ⟨rfl, rfl⟩, _, c₁, h₁, t, c₂, h₂, h⟩ := h
  have r₂ : Takes false c₁ [] [] c₂ := .eat h₂ fun _ => rfl
  split at h
  · obtain ⟨i, c₃, hi, h⟩ := bind_ok.mp h
    obtain ⟨rfl, rfl⟩ := pure_ok.mp h
    exact ⟨⟨rfl, rfl⟩, (keywordName h₁ "new").trans (r₂.trans (propertyName_fills hi).takes)⟩
  · simp only [bind_ok, Grammar.newArguments, get_ok, if_apply, pure_ok] at h
    obtain ⟨callee, c₃, hc, args, c₄, ⟨_, _, ⟨rfl, rfl⟩, ha⟩, rfl, rfl⟩ := h
    have r₁ : Takes true c [] [] c₁ := .consumeKeyword h₁
    have r₄ : Takes false c₃ (visitsOfExprs args) (outlinesOfExprs args) c₄ := by
      split at ha
      · refine (hg.arguments ha .nowhere false callee).weaken.mono fun T => ?_
        exact (List.sublist_cons_self _ _).countP_le
      · obtain ⟨rfl, rfl⟩ := pure_ok.mp ha
        exact .refl
    exact ⟨⟨rfl, rfl⟩, r₁.trans (r₂.trans ((hg.newCallee hc).takes.trans r₄))⟩

omit hg in
theorem importExpression {f : ExprForm} (h : importExpression b c = .ok f c') :
    ∃ object property, f = .metaProperty object property ∧
      Takes true c [] [object.outline, property.outline] c' := by
  simp only [Grammar.importExpression, bind_ok, here_ok, get_ok, if_apply] at h
  obtain ⟨_, _, ⟨rfl, rfl⟩, _, c₁, h₁, _, _, ⟨rfl, rfl⟩, h⟩ := h
  split at h
  · simp only [bind_ok] at h
    obtain ⟨_, _, -, _, _, hf, -⟩ := h
    cases failAt_ok hf
  · simp only [bind_ok, pure_ok] at h
    obtain ⟨_, c₂, h₂, i, c₃, hi, rfl, rfl⟩ := h
    have r₂ : Takes true c₁ [] [] c₂ := .consumeMark h₂ rfl
    exact ⟨_, i, rfl, (keywordName h₁ "import").trans (r₂.trans (propertyName_fills hi).takes)⟩

theorem compound {f : ExprForm} (h : g.compound b c = .ok f c') :
    Expr.ReadAt ⟨c.current.span.merge c'.previous.span, f⟩ c c' := by
  simp only [Grammar.compound, bind_ok, get_ok] at h
  obtain ⟨_, _, ⟨rfl, rfl⟩, h⟩ := h
  generalize hk : c.current.kind = kind at h
  split at h
  iterate 2
    obtain ⟨⟨texts, exprs⟩, c₁, ht, h⟩ := bind_ok.mp h
    obtain ⟨rfl, rfl⟩ := pure_ok.mp h
    obtain ⟨hr, hl, hs⟩ := hg.template (by simp [hk]) ht
    have hp : (ExprForm.template texts exprs).isPlain = true := by
      simpa [ExprForm.isPlain, ExprForm.alternates] using hl
    refine ⟨hr.fills.plain hp, fun h hc => ?_⟩
    cases exprs with
    | cons e es => cases h
    | nil =>
      obtain ⟨hm, htext⟩ := hs rfl hc
      refine ⟨hm, htext, ?_⟩
      rw [hm.previous]
      exact Span.merge_self _
  · obtain ⟨es, rfl, hr⟩ := hg.arrayLiteral h
    exact .of_takes rfl rfl hr
  · obtain ⟨ms, rfl, hr⟩ := hg.objectLiteral h
    exact .of_takes rfl rfl hr
  · obtain ⟨fn, hf, rfl⟩ := map_ok.mp h
    exact .of_takes rfl rfl (hg.function hf)
  · obtain ⟨cls, hc, rfl⟩ := map_ok.mp h
    exact .of_takes rfl rfl (hg.classDef hc)
  · obtain ⟨⟨hp, ht⟩, hr⟩ := hg.newExpression h
    exact .of_takes hp ht hr
  · obtain ⟨_, _, rfl, hr⟩ := importExpression h
    exact .of_takes rfl rfl hr
  · cases unexpected_ok h

omit hg in
/-- An expression of one token has no parts. -/
theorem literal {t : Token} {f : ExprForm} (h : literal? t = some f) :
    (t.kind ≠ .eof ∧ Bracket.Neutral t.kind) ∧ (f.visits = [] ∧ f.outlines = []) ∧
      f.isPlain = true ∧ (f.isText = true → t.kind.isText = true) := by
  unfold literal? at h
  split at h <;> cases h
  all_goals
    next hk =>
    rw [hk]
    refine ⟨⟨by rintro ⟨⟩, fun _ => rfl⟩, ⟨rfl, rfl⟩, rfl, ?_⟩
    first
      | exact fun _ => rfl
      | rintro ⟨⟩

/-! ## Operators -/

theorem primaryExpression {e : Expr} (h : g.primaryExpression b c = .ok e c') :
    e.ReadAt c c' := by
  simp only [Grammar.primaryExpression, bind_ok, get_ok] at h
  obtain ⟨_, _, ⟨rfl, rfl⟩, h⟩ := h
  generalize hk : c.current.kind = kind, hl : literal? c.current = form? at h
  split at h
  · exact hg.identifierExpression hk h
  · exact hg.parenExpression h
  · next form _ _ =>
    simp only [bind_ok, advance_ok, spanFrom_ok, pure_ok] at h
    obtain ⟨_, _, ⟨-, rfl⟩, _, _, ⟨rfl, rfl⟩, rfl, rfl⟩ := h
    obtain ⟨⟨he, hn⟩, ⟨hv, ho⟩, hp, ht⟩ := literal hl
    have hend : c.atEnd = false := by simpa [Cursor.atEnd] using he
    have r : Takes true c form.visits form.outlines c.next := by
      rw [hv, ho]
      exact .next hend (hn [])
    refine ⟨r.fills.plain hp, fun hs hc => ?_⟩
    refine ⟨Cursor.moves_next hc hend, ht hs, ?_⟩
    rw [Cursor.previous_next hc hend]
    exact Span.merge_self _
  · simp only [bind_ok, spanFrom_ok, pure_ok] at h
    obtain ⟨form, c₁, hf, _, _, ⟨rfl, rfl⟩, rfl, rfl⟩ := h
    exact hg.compound hf

theorem yieldExpression {f : ExprForm} (h : g.yieldExpression b c = .ok f c') :
    ∃ e d, f = .yieldExpr e d ∧ Takes true c (visitsOfExpr? e) (outlinesOfExpr? e) c' := by
  simp only [Grammar.yieldExpression, bind_ok, get_ok, if_apply] at h
  obtain ⟨_, c₁, h₁, d, c₂, h₂, _, _, ⟨rfl, rfl⟩, h⟩ := h
  have r : Takes true c [] [] c₂ := Reads.trans (.consumeKeyword h₁) (.eat h₂ fun _ => rfl)
  split at h
  · obtain ⟨rfl, rfl⟩ := pure_ok.mp h
    exact ⟨none, d, rfl, r⟩
  · obtain ⟨e, c₃, he, h⟩ := bind_ok.mp h
    obtain ⟨rfl, rfl⟩ := pure_ok.mp h
    exact ⟨some e, d, rfl, r.trans (hg.assignment he).takes⟩

omit hg in
theorem neutral_of_unary {kind : TokenKind} {op : UnaryOp} (h : UnaryOp.ofToken? kind = some op) :
    kind ≠ .eof ∧ Bracket.Neutral kind := by
  unfold UnaryOp.ofToken? at h
  split at h <;> cases h <;> exact ⟨by rintro ⟨⟩, fun _ => rfl⟩

theorem operand {e : Expr} (h : g.operand b c = .ok e c') : e.ReadAt c c' := by
  simp only [Grammar.operand, bind_ok, get_ok] at h
  obtain ⟨_, _, ⟨rfl, rfl⟩, h⟩ := h
  generalize hk : c.current.kind = kind at h
  generalize ho : UnaryOp.ofToken? kind = op? at h
  split at h
  · obtain ⟨he, hn⟩ := neutral_of_unary ho
    simp only [bind_ok, advance_ok, spanFrom_ok, pure_ok] at h
    obtain ⟨_, _, ⟨-, rfl⟩, e, c₂, he', _, _, ⟨rfl, rfl⟩, rfl, rfl⟩ := h
    have r₁ : Takes true c [] [] c.next :=
      .next (by simpa [Cursor.atEnd, hk] using he) (hk ▸ hn [])
    exact .of_takes rfl rfl (r₁.trans (hg.expression he').takes)
  · simp only [bind_ok, advance_ok, spanFrom_ok, pure_ok] at h
    obtain ⟨_, _, ⟨-, rfl⟩, e, c₂, he', _, _, ⟨rfl, rfl⟩, rfl, rfl⟩ := h
    have r₁ : Takes true c [] [] c.next :=
      .next (by simp [Cursor.atEnd, hk]) (by rw [hk]; rfl)
    exact .of_takes rfl rfl (r₁.trans (hg.expression he').takes)
  · simp only [bind_ok, spanFrom_ok, pure_ok] at h
    obtain ⟨f, c₁, hf, _, _, ⟨rfl, rfl⟩, rfl, rfl⟩ := h
    obtain ⟨e, d, rfl, hr⟩ := hg.yieldExpression hf
    exact .of_takes rfl rfl hr
  · exact hg.primaryExpression h

theorem readExpression {p : Nat} {e : Expr} (h : g.readExpression p b c = .ok e c') :
    e.ReadAt c c' := by
  simp only [Grammar.readExpression, bind_ok, read_ok] at h
  obtain ⟨first, c₁, hf, _, _, ⟨rfl, rfl⟩, h⟩ := h
  refine iterate_induction (I := fun e d => Expr.ReadAt e c d) ?_ h (hg.operand hf)
  intro left d e d' hd _ he
  exact hg.extend hd he

theorem fullExpression {e : Expr} (h : g.fullExpression b c = .ok e c') : e.ReadAt c c' :=
  commaSequence hg.readExpression h

end Grammar.Accounts
end ModuleBundler
