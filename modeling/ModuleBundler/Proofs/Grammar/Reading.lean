import ModuleBundler.Proofs.Grammar.Account
import ModuleBundler.Proofs.Tree.Bare
import ModuleBundler.Proofs.Tree.Part

/-! The account of what the readers of names, lists, patterns, functions and classes read. -/
namespace ModuleBundler
open Outline

namespace Parser
variable {m : Bool} {b : Bool} {c c' : Cursor} {α : Type} {s s' : List Bracket}

theorem ident_fills {i : Ident} (h : ident b c = .ok i c') : Fills c [] i.outline c' := by
  simp only [ident, bind_ok, pure_ok] at h
  obtain ⟨t, _, ht, rfl, rfl⟩ := h
  obtain ⟨hs, rfl, rfl⟩ := consume_ok ht
  refine .token_next (Cursor.atEnd_of_sees hs) fun s => ?_
  rw [Cursor.kind_of_sees hs]
  rfl

theorem propertyName_fills {i : Ident} (h : propertyName b c = .ok i c') :
    Fills c [] i.outline c' := by
  simp only [propertyName, bind_ok, get_ok, if_apply] at h
  obtain ⟨_, _, ⟨rfl, rfl⟩, h⟩ := h
  split at h
  · next hn =>
    simp only [bind_ok, advance_ok, pure_ok] at h
    obtain ⟨_, _, ⟨rfl, rfl⟩, rfl, rfl⟩ := h
    refine .token_next ?_ (Bracket.Neutral.of_isName hn)
    cases hk : c.current.kind <;> simp_all [Cursor.atEnd, TokenKind.isName]
  · cases unexpected_ok h

theorem consumeWord_takes {word : String} {u : Unit} (h : consumeWord word b c = .ok u c') :
    Takes false c [] [] c' := by
  simp only [consumeWord, bind_ok, if_apply] at h
  obtain ⟨r, c₁, hr, h⟩ := h
  split at h
  · cases unexpected_ok h
  · obtain ⟨-, rfl⟩ := pure_ok.mp h
    exact .eatWord hr

theorem semicolon_takes {u : Unit} (h : semicolon b c = .ok u c') : Takes false c [] [] c' := by
  simp only [semicolon, bind_ok, pure_ok] at h
  obtain ⟨r, _, hr, -, rfl⟩ := h
  exact .eat hr fun _ => rfl

theorem separator_takes {close : Punctuator} {u : Unit} (h : separator close b c = .ok u c') :
    Takes false c [] [] c' := by
  simp only [separator, bind_ok, get_ok, if_apply] at h
  obtain ⟨_, _, ⟨rfl, rfl⟩, h⟩ := h
  split at h
  · exact (Reads.consumeMark h rfl).weaken
  · obtain ⟨-, rfl⟩ := pure_ok.mp h
    exact .refl

theorem many_reads {continues : Cursor → Bool} {item : Parser α} {as : List α}
    (visits : α → List Visit) (outlines : α → List Outline)
    (reads : ∀ {c a c'}, continues c = true → item b c = .ok a c' →
      Reads m s c (visits a) (outlines a) s c')
    (h : many continues item b c = .ok as c') :
    Reads false s c (as.flatMap visits) (as.flatMap outlines) s c' := by
  obtain ⟨items, hi, rfl⟩ := many_ok.mp h
  refine iterate_induction (I := fun (items : List α) d =>
    Reads false s c (items.reverse.flatMap visits) (items.reverse.flatMap outlines) s d) ?_ hi .refl
  intro items d r d' hd hc hr
  simp only [bind_ok, pure_ok] at hr
  obtain ⟨a, d₁, ha, rfl, rfl⟩ := hr
  simpa using (hd.trans (reads hc ha)).weaken

theorem many_takes {continues : Cursor → Bool} {item : Parser α} {as : List α}
    (visits : α → List Visit) (outlines : α → List Outline)
    (takes : ∀ {c a c'}, item b c = .ok a c' → Takes m c (visits a) (outlines a) c')
    (h : many continues item b c = .ok as c') :
    Takes false c (as.flatMap visits) (as.flatMap outlines) c' :=
  many_reads visits outlines (fun _ ha => takes ha) h

theorem after_takes {kind : TokenKind} {p : Parser α} {r : Option α} (visits : α → List Visit)
    (outlines : α → List Outline) (hk : Bracket.Neutral kind)
    (takes : ∀ {c a c'}, p b c = .ok a c' → Takes m c (visits a) (outlines a) c')
    (h : after kind p b c = .ok r c') :
    Takes false c (r.elim [] visits) (r.elim [] outlines) c' := by
  rcases after_ok h with ⟨c₁, a, h₁, ha, rfl⟩ | ⟨rfl, rfl⟩
  · exact (Reads.trans (.eat h₁ hk) (takes ha)).weaken
  · exact .refl

/-- Items with commas between them. -/
theorem separated_takes {continues : Cursor → Bool} {close : Punctuator} {item : Parser α}
    {as : List α} (visits : α → List Visit) (outlines : α → List Outline)
    (takes : ∀ {c a c'}, item b c = .ok a c' → Takes m c (visits a) (outlines a) c')
    (h : many continues (do
      let a ← item
      separator close
      return a) b c = .ok as c') :
    Takes false c (as.flatMap visits) (as.flatMap outlines) c' := by
  refine many_takes (m := false) visits outlines (fun h => ?_) h
  simp only [bind_ok, pure_ok] at h
  obtain ⟨a, d, ha, _, _, hsep, rfl, rfl⟩ := h
  exact ((takes ha).past (separator_takes hsep)).weaken

/-- What stands in a list up to the mark that closes it. -/
theorem commaList_reads {close : Punctuator} {item : Parser α} {as : List α}
    (visits : α → List Visit) (outlines : α → List Outline)
    (hs : Bracket.step s (.punct close) = some s')
    (takes : ∀ {c a c'}, item b c = .ok a c' → Takes m c (visits a) (outlines a) c')
    (h : commaList close item b c = .ok as c') :
    Reads true s c (as.flatMap visits) (as.flatMap outlines) s' c' := by
  simp only [commaList, manyUntil, bind_ok, pure_ok] at h
  obtain ⟨as', c₁, hm, _, c₂, hc, rfl, rfl⟩ := h
  exact (separated_takes visits outlines takes hm).within.past (.consumeMark hc hs)

end Parser

/-- An expression was read between two places. A fixed text is the one token between them. -/
structure Expr.ReadAt (e : Expr) (c c' : Cursor) : Prop where
  fills : Fills c e.visits e.outline c'
  text : e.form.isText = true → c.Ended →
    c.Moves [c.current] c' ∧ c.current.kind.isText = true ∧ e.span = c.current.span

namespace Expr.ReadAt
variable {e : Expr} {c c' : Cursor}

theorem takes (h : e.ReadAt c c') : Takes true c e.visits [e.outline] c' := h.fills.takes

theorem extent (h : e.ReadAt c c') {cs : List Char} (hc : c.Placed cs) :
    e.span = c.spanTo c' := by
  rw [← e.extent_outline]
  exact h.fills.extent cs hc

theorem of_fills (h : e.form.isText = false) (fills : Fills c e.visits e.outline c') :
    e.ReadAt c c' := ⟨fills, by simp [h]⟩

/-- What has parts of its own is read with them. -/
theorem of_takes {form : ExprForm} (hp : form.isPlain = true) (ht : form.isText = false)
    (takes : Takes true c form.visits form.outlines c') :
    Expr.ReadAt ⟨c.current.span.merge c'.previous.span, form⟩ c c' :=
  of_fills ht (takes.fills.plain hp)

end Expr.ReadAt

namespace Grammar

/-- The tokens that the readers of parts pass account for what they read. -/
structure Accounts (g : Grammar) : Prop where
  expression : ∀ {p b c e c'}, g.expression p b c = .ok e c' → e.ReadAt c c'
  primary : ∀ {b c e c'}, g.primary b c = .ok e c' → e.ReadAt c c'
  pattern : ∀ {b c p c'}, g.pattern b c = .ok p c' → Fills c p.visits p.outline c'
  statement : ∀ {b c s c'}, g.statement b c = .ok s c' → Fills c s.visits s.outline c'

theorem accounts_empty : empty.Accounts where
  expression h := by cases h
  primary h := by cases h
  pattern h := by cases h
  statement h := by cases h

theorem name_of_shorthandName? {key : PropertyKey} {i : Ident}
    (h : shorthandName? key = some i) : key = .name i := by
  unfold shorthandName? at h
  split at h
  · split at h
    · cases h
    · cases h
      rfl
  · cases h

namespace Accounts
variable {g : Grammar} (hg : g.Accounts) {b : Bool} {c c' c₁ : Cursor}
open ModuleBundler.Parser

theorem commaSequence {item : Parser Expr} {e : Expr}
    (reads : ∀ {c e c'}, item b c = .ok e c' → e.ReadAt c c')
    (h : commaSequence item b c = .ok e c') : e.ReadAt c c' := by
  simp only [Grammar.commaSequence, bind_ok, get_ok, if_apply] at h
  obtain ⟨first, c₁, hf, _, _, ⟨rfl, rfl⟩, h⟩ := h
  split at h
  · simp only [bind_ok, spanFrom_ok, pure_ok] at h
    obtain ⟨others, c₂, ho, _, _, ⟨rfl, rfl⟩, rfl, rfl⟩ := h
    have ho : Takes false c₁ (visitsOfExprs others) (outlinesOfExprs others) c₂ := by
      rw [visits_exprs, outlines_exprs]
      refine many_takes (m := true) Expr.visits (fun e => [e.outline]) (fun h => ?_) ho
      simp only [bind_ok] at h
      obtain ⟨_, d, hc, he⟩ := h
      exact Reads.trans (.consumeMark hc rfl) (reads he).takes
    have r := (reads hf).fills.extend ho
    rw [Expr.extent_outline] at r
    exact .of_fills rfl (r.plain rfl)
  · obtain ⟨rfl, rfl⟩ := pure_ok.mp h
    exact reads hf

include hg

theorem assignment {e : Expr} (h : g.assignment b c = .ok e c') : e.ReadAt c c' :=
  hg.expression h

theorem enclosed {e : Expr} (h : g.enclosed b c = .ok e c') : e.ReadAt c c' :=
  commaSequence hg.assignment h

theorem propertyKey {key : PropertyKey} (h : g.propertyKey b c = .ok key c') :
    Takes true c key.visits key.outlines c' := by
  simp only [Grammar.propertyKey, bind_ok, get_ok] at h
  obtain ⟨_, _, ⟨rfl, rfl⟩, h⟩ := h
  generalize hk : c.current.kind = kind at h
  split at h
  iterate 3
    next hk =>
    simp only [bind_ok, advance_ok, pure_ok] at h
    obtain ⟨_, _, ⟨-, rfl⟩, rfl, rfl⟩ := h
    refine .next (by simp [Cursor.atEnd, hk]) ?_
    rw [hk]
    rfl
  · simp only [bind_ok, pure_ok] at h
    obtain ⟨i, _, hi, rfl, rfl⟩ := h
    exact (propertyName_fills hi).takes
  · simp only [bind_ok, pure_ok, withIn_apply] at h
    obtain ⟨_, c₁, h₁, e, c₂, h₂, _, c₃, h₃, rfl, rfl⟩ := h
    exact .between h₁ rfl (hg.assignment h₂).takes h₃ rfl
  · simp only [bind_ok, pure_ok] at h
    obtain ⟨i, _, hi, rfl, rfl⟩ := h
    exact (propertyName_fills hi).takes

omit hg in
/-- A key that is a name is all that is read. -/
theorem propertyKey_name {i : Ident} (h : g.propertyKey b c = .ok (.name i) c') :
    Fills c [] i.outline c' := by
  simp only [Grammar.propertyKey, bind_ok, get_ok] at h
  obtain ⟨_, _, ⟨rfl, rfl⟩, h⟩ := h
  generalize c.current.kind = kind at h
  split at h
  all_goals simp only [bind_ok, pure_ok, reduceCtorEq, false_and, exists_false, and_false] at h
  obtain ⟨j, _, hj, hi, rfl⟩ := h
  cases hi
  exact propertyName_fills hj

/-! ## Patterns -/

/-- The default of a pattern comes on top of the pattern. -/
theorem defaultFor {p q : Pattern} (hp : Fills c p.visits p.outline c₁)
    (h : g.defaultFor p b c₁ = .ok q c') :
    Fills c q.visits q.outline c' ∧ ∃ vs os, Takes false c₁ vs os c' := by
  simp only [Grammar.defaultFor, bind_ok, if_apply] at h
  obtain ⟨r, c₂, hr, h⟩ := h
  split at h
  · simp only [bind_ok, pure_ok] at h
    obtain ⟨e, c₂, he, rfl, rfl⟩ := h
    have r₁ : Takes false c₁ [] [] _ := .eat hr fun _ => rfl
    have r := hp.merge r₁ (hg.assignment he).fills
    rw [Pattern.extent_outline, Expr.extent_outline] at r
    exact ⟨r.visit (by simp), _, _, (r₁.trans (hg.assignment he).takes).weaken⟩
  · next hf =>
    obtain ⟨rfl, rfl⟩ := pure_ok.mp h
    obtain rfl := eat_stays hr hf
    exact ⟨hp, [], [], .refl⟩

theorem patternWithDefault {p : Pattern} (h : g.patternWithDefault b c = .ok p c') :
    Fills c p.visits p.outline c' := by
  simp only [Grammar.patternWithDefault, bind_ok] at h
  obtain ⟨q, c₁, hq, h⟩ := h
  exact (hg.defaultFor (hg.pattern hq) h).1

theorem restPattern {p : Option Pattern} (h : g.restPattern b c = .ok p c') :
    Takes false c (visitsOfPattern? p) (outlinesOfPattern? p) c' := by
  have r := after_takes Pattern.visits (fun p => [p.outline]) (fun _ => rfl)
    (fun h => (hg.pattern h).takes) h
  cases p <;> exact r

omit hg in
theorem exprAfter {kind : TokenKind} {p : Parser Expr} {e : Option Expr}
    (hk : Bracket.Neutral kind) (reads : ∀ {c e c'}, p b c = .ok e c' → e.ReadAt c c')
    (h : after kind p b c = .ok e c') :
    Takes false c (visitsOfExpr? e) (outlinesOfExpr? e) c' := by
  have r := after_takes Expr.visits (fun e => [e.outline]) hk (fun h => (reads h).takes) h
  cases e <;> exact r

theorem arrayPosition {p : Option Pattern} (h : g.arrayPosition b c = .ok p c') :
    Takes false c (visitsOfPattern? p) (outlinesOfPattern? p) c' := by
  simp only [Grammar.arrayPosition, bind_ok, if_apply] at h
  obtain ⟨r, c₁, hr, h⟩ := h
  have r₁ : Takes false c [] [] c₁ := .eat hr fun _ => rfl
  split at h
  · obtain ⟨rfl, rfl⟩ := pure_ok.mp h
    exact r₁
  · simp only [bind_ok, pure_ok] at h
    obtain ⟨p, c₂, hp, _, c₃, hs, rfl, rfl⟩ := h
    exact (r₁.trans ((hg.patternWithDefault hp).takes.past (separator_takes hs))).weaken

theorem arrayPattern {f : PatternForm} (h : g.arrayPattern b c = .ok f c') :
    Takes true c f.visits f.outlines c' := by
  simp only [Grammar.arrayPattern, bind_ok, pure_ok] at h
  obtain ⟨_, c₁, h₁, ps, c₂, h₂, rest, c₃, h₃, _, c₄, h₄, rfl, rfl⟩ := h
  have r₂ := many_takes visitsOfPattern? outlinesOfPattern? hg.arrayPosition h₂
  rw [PatternForm.visits, PatternForm.outlines, visits_positions, outlines_positions]
  exact .between h₁ rfl (r₂.trans (hg.restPattern h₃)) h₄ rfl

theorem keyedPattern {key : PropertyKey} {p : PatternProperty}
    (hk : g.propertyKey b c = .ok key c₁) (h : g.keyedPattern key b c₁ = .ok p c') :
    Takes true c p.visits p.outlines c' := by
  simp only [Grammar.keyedPattern, bind_ok, if_apply] at h
  obtain ⟨r, c₂, hr, h⟩ := h
  split at h
  · simp only [bind_ok, pure_ok] at h
    obtain ⟨p, _, hp, rfl, rfl⟩ := h
    rw [PatternProperty.outlines, outlinesOfProperty_false]
    have r₂ : Takes false c₁ [] [] c₂ := .eat hr fun _ => rfl
    exact (hg.propertyKey hk).trans (r₂.trans (hg.patternWithDefault hp).takes)
  · next hf =>
    obtain rfl := eat_stays hr hf
    generalize hname : shorthandName? key = name? at h
    split at h
    · next i =>
      obtain rfl := name_of_shorthandName? hname
      simp only [bind_ok, pure_ok] at h
      obtain ⟨q, _, hq, rfl, rfl⟩ := h
      have hi := propertyKey_name hk
      have hp : Fills c (Pattern.visits ⟨i.span, .ident i⟩) (Pattern.outline ⟨i.span, .ident i⟩)
          c₂ := (hi.takes.fills_of_eq hi.extent).visit (by simp)
      obtain ⟨hq, _, _, hos⟩ := hg.defaultFor hp hq
      exact hi.takes.shorthand hos hq.takes
    · cases fail_ok h

theorem patternProperty {p : PatternProperty} (h : g.patternProperty b c = .ok p c') :
    Takes true c p.visits p.outlines c' := by
  simp only [Grammar.patternProperty, bind_ok, pure_ok] at h
  obtain ⟨key, c₁, hk, p, c₂, hp, _, c₃, hs, rfl, rfl⟩ := h
  exact (hg.keyedPattern hk hp).past (separator_takes hs)

theorem objectPattern {f : PatternForm} (h : g.objectPattern b c = .ok f c') :
    Takes true c f.visits f.outlines c' := by
  simp only [Grammar.objectPattern, bind_ok, pure_ok] at h
  obtain ⟨_, c₁, h₁, ps, c₂, h₂, rest, c₃, h₃, _, c₄, h₄, rfl, rfl⟩ := h
  have r₂ := many_takes PatternProperty.visits PatternProperty.outlines hg.patternProperty h₂
  rw [PatternForm.visits, PatternForm.outlines, visits_properties, outlines_properties]
  exact .between h₁ rfl (r₂.trans (hg.restPattern h₃)) h₄ rfl

theorem patternForm {f : PatternForm} (h : g.patternForm b c = .ok f c') :
    Takes true c f.visits f.outlines c' := by
  simp only [Grammar.patternForm, bind_ok, get_ok] at h
  obtain ⟨_, _, ⟨rfl, rfl⟩, h⟩ := h
  generalize hk : c.current.kind = kind at h
  split at h
  · exact hg.arrayPattern h
  · exact hg.objectPattern h
  · obtain ⟨i, hi, rfl⟩ := map_ok.mp h
    exact (ident_fills hi).takes
  · cases unexpected_ok h

theorem readPattern {p : Pattern} (h : g.readPattern b c = .ok p c') :
    Fills c p.visits p.outline c' := by
  simp only [Grammar.readPattern, bind_ok, here_ok, spanFrom_ok, pure_ok] at h
  obtain ⟨_, _, ⟨rfl, rfl⟩, form, c₁, h, _, _, ⟨rfl, rfl⟩, rfl, rfl⟩ := h
  exact ((hg.patternForm h).visit (by simp)).fills

/-! ## Functions and classes -/

theorem param {p : Param} (h : g.param b c = .ok p c') :
    Takes true c p.visits p.outlines c' := by
  simp only [Grammar.param, bind_ok, if_apply] at h
  obtain ⟨r, c₁, hr, h⟩ := h
  have r₁ : Takes false c [] [] c₁ := .eat hr fun _ => rfl
  split at h
  all_goals
    simp only [bind_ok, pure_ok] at h
    obtain ⟨p, c₂, hp, rfl, rfl⟩ := h
  · exact r₁.trans (hg.pattern hp).takes
  · exact r₁.trans (hg.patternWithDefault hp).takes

theorem params {ps : List Param} (h : g.params b c = .ok ps c') :
    Takes true c (visitsOfParams ps) (outlinesOfParams ps) c' := by
  simp only [Grammar.params, bind_ok] at h
  obtain ⟨_, c₁, h₁, h₂⟩ := h
  rw [visits_params, outlines_params]
  exact Reads.trans (.consumeMark h₁ rfl)
    (commaList_reads Param.visits Param.outlines rfl hg.param h₂)

theorem block {bl : Block} (h : g.block b c = .ok bl c') :
    Fills c bl.visits bl.outline c' := by
  simp only [Grammar.block, bind_ok, here_ok, spanFrom_ok, pure_ok] at h
  obtain ⟨_, _, ⟨rfl, rfl⟩, _, c₁, h₁, ss, c₂, h₂, _, c₃, h₃, _, _, ⟨rfl, rfl⟩, rfl, rfl⟩ := h
  have r₂ := many_takes Stmt.visits (fun s => [s.outline]) (fun h => (hg.statement h).takes) h₂
  rw [Block.visits, Block.outline, visits_stmts, outlines_stmts]
  exact (Reads.between h₁ rfl r₂ h₃ rfl).fills

theorem functionTail {name : Option Ident} {isAsync isGenerator : Bool} {fn : FunctionDef}
    (h : g.functionTail name isAsync isGenerator b c = .ok fn c') :
    ∃ ps body, fn = ⟨name, ps, body, isAsync, isGenerator⟩ ∧
      Takes true c (visitsOfParams ps ++ body.visits) (outlinesOfParams ps ++ [body.outline])
        c' := by
  simp only [Grammar.functionTail, bind_ok, withIn_apply, pure_ok] at h
  obtain ⟨ps, c₁, hp, body, c₂, hb, rfl, rfl⟩ := h
  exact ⟨ps, body, rfl, (hg.params hp).trans (hg.block hb).takes⟩

omit hg in
theorem declaredName {nameOptional : Bool} {missing : Fault} {i : Option Ident}
    (h : declaredName nameOptional missing b c = .ok i c') :
    Takes false c [] (outlinesOfIdent? i) c' := by
  simp only [Grammar.declaredName, bind_ok, get_ok, if_apply] at h
  obtain ⟨_, _, ⟨rfl, rfl⟩, h⟩ := h
  split at h
  · simp only [bind_ok, pure_ok] at h
    obtain ⟨i, _, hi, rfl, rfl⟩ := h
    exact (ident_fills hi).takes.weaken
  · split at h
    · obtain ⟨rfl, rfl⟩ := pure_ok.mp h
      exact .refl
    · cases fail_ok h

theorem function {nameOptional : Bool} {fn : FunctionDef}
    (h : g.function nameOptional b c = .ok fn c') : Takes true c fn.visits fn.outlines c' := by
  simp only [Grammar.function, bind_ok] at h
  obtain ⟨_, c₁, h₁, _, c₂, h₂, _, c₃, h₃, _, c₄, h₄, h⟩ := h
  have r₁ : Takes false c [] [] c₁ := .eatWord h₁
  have r₂ : Takes true c₁ [] [] c₂ := .consumeKeyword h₂
  have r₃ : Takes false c₂ [] [] c₃ := .eat h₃ fun _ => rfl
  obtain ⟨ps, body, rfl, r₅⟩ := hg.functionTail h
  exact (r₁.trans (r₂.trans (r₃.trans ((declaredName h₄).trans r₅)))).visit (by simp)

omit hg in
theorem modifier {word : String} {r : Bool} (h : modifier word b c = .ok r c') :
    Takes false c [] [] c' := by
  simp only [Parser.modifier, bind_ok, get_ok, if_apply] at h
  obtain ⟨_, _, ⟨rfl, rfl⟩, _, _, ⟨rfl, rfl⟩, h⟩ := h
  split at h
  · next hs =>
    simp only [bind_ok, advance_ok, pure_ok] at h
    obtain ⟨_, _, ⟨-, rfl⟩, -, rfl⟩ := h
    exact (Reads.next_of_seesWord (Bool.and_eq_true_iff.mp hs).1).weaken
  · obtain ⟨-, rfl⟩ := pure_ok.mp h
    exact .refl

omit hg in
theorem modifiers {m : Modifiers} (h : modifiers b c = .ok m c') : Takes false c [] [] c' := by
  simp only [Parser.modifiers, bind_ok, if_apply] at h
  obtain ⟨_, c₁, h₁, _, c₂, h₂, h⟩ := h
  have r₁ : Takes false c [] [] c₁ := by
    simp only [asyncModifier, bind_ok, get_ok, if_apply] at h₁
    obtain ⟨_, _, ⟨rfl, rfl⟩, h₁⟩ := h₁
    split at h₁
    · obtain ⟨-, rfl⟩ := pure_ok.mp h₁
      exact .refl
    · exact modifier h₁
  have r : Takes false c [] [] c₂ := r₁.trans (.eat h₂ fun _ => rfl)
  split at h
  · obtain ⟨-, rfl⟩ := pure_ok.mp h
    exact r
  · obtain ⟨_, c₃, h₃, h⟩ := bind_ok.mp h
    have r : Takes false c [] [] c₃ := r.trans (modifier h₃)
    rw [if_apply] at h
    split at h
    · obtain ⟨-, rfl⟩ := pure_ok.mp h
      exact r
    · obtain ⟨_, c₄, h₄, h⟩ := bind_ok.mp h
      rw [if_apply] at h
      split at h
      all_goals
        obtain ⟨-, rfl⟩ := pure_ok.mp h
        exact r.trans (modifier h₄)

theorem methodOrField {isStatic : Bool} {m : ClassMember}
    (h : g.methodOrField isStatic b c = .ok m c') : Takes true c m.visits m.outlines c' := by
  simp only [Grammar.methodOrField, bind_ok, get_ok, if_apply] at h
  obtain ⟨_, c₁, h₁, key, c₂, h₂, _, _, ⟨rfl, rfl⟩, h⟩ := h
  have r : Takes true c key.visits key.outlines c₂ := (modifiers h₁).trans (hg.propertyKey h₂)
  split at h
  · obtain ⟨fn, c₃, hf, h⟩ := bind_ok.mp h
    obtain ⟨ps, body, rfl, r₃⟩ := hg.functionTail hf
    rw [if_apply] at h
    split at h
    all_goals obtain ⟨rfl, rfl⟩ := pure_ok.mp h
    · -- the key of a constructor is not kept
      refine ((r.trans r₃).mono fun _ => ?_).refines ((Refines.nil _).append (.refl _))
      rw [Tally.count_append]
      exact Nat.le_add_left ..
    · exact r.trans (r₃.visit (by simp))
  · split at h
    · cases fail_ok h
    · simp only [bind_ok, pure_ok] at h
      obtain ⟨value, c₃, h₃, _, c₄, h₄, rfl, rfl⟩ := h
      have r₃ := exprAfter (p := withIn g.assignment) (fun _ => rfl) (fun h => hg.assignment h) h₃
      exact r.trans (r₃.past (semicolon_takes h₄))

theorem classMember {m : ClassMember} (h : g.classMember b c = .ok m c') :
    Takes true c m.visits m.outlines c' := by
  simp only [Grammar.classMember, bind_ok, get_ok, if_apply] at h
  obtain ⟨_, c₁, h₁, _, _, ⟨rfl, rfl⟩, h⟩ := h
  split at h
  · simp only [bind_ok, withIn_apply, pure_ok] at h
    obtain ⟨bl, c₂, hb, rfl, rfl⟩ := h
    exact (modifier h₁).trans (hg.block hb).takes
  · exact (modifier h₁).trans (hg.methodOrField h)

theorem classMember? {m : Option ClassMember} (h : g.classMember? b c = .ok m c') :
    Takes true c (m.elim [] ClassMember.visits) (m.elim [] ClassMember.outlines) c' := by
  simp only [Grammar.classMember?, bind_ok, if_apply] at h
  obtain ⟨r, c₁, hr, h⟩ := h
  split at h
  · next ht =>
    subst ht
    obtain ⟨rfl, rfl⟩ := pure_ok.mp h
    exact .eat_true hr rfl
  · simp only [bind_ok, pure_ok] at h
    obtain ⟨m, c₂, hm, rfl, rfl⟩ := h
    exact Reads.trans (.eat hr fun _ => rfl) (hg.classMember hm)

theorem classDef {nameOptional : Bool} {cls : ClassDef}
    (h : g.classDef nameOptional b c = .ok cls c') :
    Takes true c cls.visits cls.outlines c' := by
  simp only [Grammar.classDef, bind_ok, pure_ok] at h
  obtain ⟨_, c₁, h₁, name, c₂, h₂, base, c₃, h₃, _, c₄, h₄, ms, c₅, h₅, _, c₆, h₆, rfl, rfl⟩ := h
  have r₁ : Takes true c [] [] c₁ := .consumeKeyword h₁
  have r₃ := exprAfter (fun _ => rfl) hg.expression h₃
  have r₅ := many_takes (fun m : Option ClassMember => m.elim [] ClassMember.visits)
    (fun m => m.elim [] ClassMember.outlines) hg.classMember? h₅
  rw [← visits_classMembers, ← outlines_classMembers] at r₅
  exact (r₁.trans ((declaredName h₂).trans (r₃.trans (.between h₄ rfl r₅ h₆ rfl)))).visit (by simp)

end Accounts
end Grammar
end ModuleBundler
