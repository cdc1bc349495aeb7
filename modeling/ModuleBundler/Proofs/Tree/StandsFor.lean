import ModuleBundler.Tree.Target
import ModuleBundler.Proofs.Tree.Bare

/-! Expressions that stand for patterns, put together from their parts. -/
namespace ModuleBundler

/-- No property of a pattern that stands for its own name has a default. -/
inductive Pattern.Plain : Pattern → Prop where
  | ident {span : Span} {i : Ident} : Plain ⟨span, .ident i⟩
  | target {span : Span} {e : Expr} : Plain ⟨span, .target e⟩
  | withDefault {span : Span} {p : Pattern} {value : Expr} : Plain p →
    Plain ⟨span, .withDefault p value⟩
  | array {span : Span} {ps : List (Option Pattern)} {rest : Option Pattern} :
    (∀ p, some p ∈ ps → Plain p) → (∀ p, rest = some p → Plain p) →
    Plain ⟨span, .array ps rest⟩
  | object {span : Span} {qs : List PatternProperty} {rest : Option Pattern} :
    (∀ q ∈ qs, Plain q.value) →
    (∀ q ∈ qs, q.shorthand = true → ∀ p value, q.value.form ≠ .withDefault p value) →
    (∀ p, rest = some p → Plain p) → Plain ⟨span, .object qs rest⟩

/-- A property does not stand for its own name with a default, and no property in its value does. -/
def PatternProperty.Plain (q : PatternProperty) : Prop :=
  q.value.Plain ∧ (q.shorthand = true → ∀ p value, q.value.form ≠ .withDefault p value)

namespace Pattern
variable {span : Span} {rest : Option Pattern}

theorem plain_withDefault {p : Pattern} {value : Expr} :
    Plain ⟨span, .withDefault p value⟩ ↔ p.Plain := by
  constructor
  · rintro (_ | _ | h)
    exact h
  · exact .withDefault

theorem plain_array {ps : List (Option Pattern)} :
    Plain ⟨span, .array ps rest⟩ ↔
      (∀ p, some p ∈ ps → p.Plain) ∧ ∀ p, rest = some p → p.Plain := by
  constructor
  · rintro (_ | _ | _ | ⟨h, hr⟩)
    exact ⟨h, hr⟩
  · rintro ⟨h, hr⟩
    exact .array h hr

theorem plain_object {qs : List PatternProperty} :
    Plain ⟨span, .object qs rest⟩ ↔
      (∀ q ∈ qs, q.Plain) ∧ ∀ p, rest = some p → p.Plain := by
  constructor
  · rintro (_ | _ | _ | _ | ⟨h, hs, hr⟩)
    exact ⟨fun q hq => ⟨h q hq, hs q hq⟩, hr⟩
  · rintro ⟨h, hr⟩
    exact .object (fun q hq => (h q hq).1) (fun q hq => (h q hq).2) hr

end Pattern

/-- An expression stands for a pattern, up to the spans in it. -/
def Expr.StandsFor (e : Expr) (p : Pattern) : Prop :=
  ∃ q, e.toPattern = .ok q ∧ q.bare .none = p.bare .none

/-- The parts of a literal stand for the parts of a pattern one by one, and one more for its rest,
if it has one. -/
inductive PartsFor {α β : Type} (part : β → α → Prop) (spread : β → Pattern → Prop) :
    List β → List α → Option Pattern → Prop where
  | nil : PartsFor part spread [] [] none
  | rest {y : β} {p : Pattern} : spread y p → PartsFor part spread [y] [] (some p)
  | cons {y : β} {x : α} {ys : List β} {xs : List α} {r : Option Pattern} : part y x →
    PartsFor part spread ys xs r → PartsFor part spread (y :: ys) (x :: xs) r

/-- The element of an array is a spread of an expression that stands for a pattern. -/
def SpreadsElement (y : Option Expr) (p : Pattern) : Prop :=
  ∃ span e, y = some ⟨span, .spread e⟩ ∧ e.StandsFor p

/-- The member of an object has the key of a property and a value that stands for its value. -/
def ObjectMember.StandsFor (m : ObjectMember) (q : PatternProperty) : Prop :=
  ∃ e, m = .property q.key e q.shorthand ∧ e.StandsFor q.value

/-- The member of an object is a spread of an expression that stands for a pattern. -/
def ObjectMember.Spreads (m : ObjectMember) (p : Pattern) : Prop :=
  ∃ e, m = .spread e ∧ e.StandsFor p

namespace Expr.StandsFor
variable {span span' : Span} {p : Pattern} {r : Option Pattern}

theorem ident {name : String} {s s' : Span} :
    StandsFor ⟨span, .ident name⟩ ⟨s, .ident ⟨name, s'⟩⟩ :=
  ⟨_, rfl, rfl⟩

theorem withDefault {e value : Expr} (h : e.StandsFor p) :
    StandsFor ⟨span, .assignment .assign e value⟩ ⟨span', .withDefault p value⟩ := by
  obtain ⟨q, hq, hb⟩ := h
  refine ⟨⟨span, .withDefault q value⟩, ?_, ?_⟩
  · rw [toPattern, ExprForm.toPattern, hq]
    rfl
  · simp only [Pattern.bare, PatternForm.bare, hb]

theorem ne_spread {e : Expr} (h : e.StandsFor p) (inner : Expr) (hs : e.form = .spread inner) :
    False := by
  obtain ⟨q, hq, -⟩ := h
  obtain ⟨span, form⟩ := e
  cases hs
  cases hq

theorem arrayTargets {es : List (Option Expr)} {ps : List (Option Pattern)}
    (h : PartsFor (Option.Rel StandsFor) SpreadsElement es ps r) :
    ∃ qs r', arrayTargets es = .ok (qs, r') ∧ barePositions .none qs = barePositions .none ps ∧
      barePattern? .none r' = barePattern? .none r := by
  induction h with
  | nil => exact ⟨[], none, rfl, rfl, rfl⟩
  | rest h =>
    obtain ⟨span, e, rfl, q, hq, hb⟩ := h
    refine ⟨[], some q, ?_, rfl, congrArg some hb⟩
    rw [ModuleBundler.arrayTargets, hq]
    rfl
  | cons h _ ih =>
    obtain ⟨qs, r', hes, hqs, hr⟩ := ih
    cases h with
    | none =>
      refine ⟨none :: qs, r', ?_, congrArg (none :: ·) hqs, hr⟩
      rw [ModuleBundler.arrayTargets, hes]
      rfl
    | @some e p he =>
      have hn := he.ne_spread
      obtain ⟨q, hq, hb⟩ := he
      obtain ⟨span, form⟩ := e
      refine ⟨some q :: qs, r', ?_, ?_, hr⟩
      · rw [arrayTargets.eq_4 _ _ _ hn, show form.toPattern span = .ok q from hq, hes]
        rfl
      · simp only [barePositions, barePattern?, hb, hqs]

theorem objectTargets (span : Span) {ms : List ObjectMember} {qs : List PatternProperty}
    (h : PartsFor ObjectMember.StandsFor ObjectMember.Spreads ms qs r) :
    ∃ qs' r', objectTargets span ms = .ok (qs', r') ∧
      bareProperties .none qs' = bareProperties .none qs ∧
      barePattern? .none r' = barePattern? .none r := by
  induction h with
  | nil => exact ⟨[], none, rfl, rfl, rfl⟩
  | rest h =>
    obtain ⟨e, rfl, q, hq, hb⟩ := h
    refine ⟨[], some q, ?_, rfl, congrArg some hb⟩
    rw [ModuleBundler.objectTargets, hq]
    rfl
  | @cons m x _ _ _ h _ ih =>
    obtain ⟨qs, r', hes, hqs, hr⟩ := ih
    obtain ⟨key, value, shorthand⟩ := x
    obtain ⟨e, rfl, q, hq, hb⟩ := h
    refine ⟨⟨key, q, shorthand⟩ :: qs, r', ?_, ?_, hr⟩
    · rw [ModuleBundler.objectTargets, hq, hes]
      rfl
    · simp only [bareProperties, PatternProperty.bare, hb, hqs]

theorem array {es : List (Option Expr)} {ps : List (Option Pattern)}
    (h : PartsFor (Option.Rel StandsFor) SpreadsElement es ps r) :
    StandsFor ⟨span, .array es⟩ ⟨span', .array ps r⟩ := by
  obtain ⟨qs, r', hes, hqs, hr⟩ := arrayTargets h
  refine ⟨⟨span, .array qs r'⟩, ?_, ?_⟩
  · rw [toPattern, ExprForm.toPattern, hes]
    rfl
  · simp only [Pattern.bare, PatternForm.bare, hqs, hr]

theorem object {ms : List ObjectMember} {qs : List PatternProperty}
    (h : PartsFor ObjectMember.StandsFor ObjectMember.Spreads ms qs r) :
    StandsFor ⟨span, .object ms⟩ ⟨span', .object qs r⟩ := by
  obtain ⟨qs', r', hms, hqs, hr⟩ := objectTargets span h
  refine ⟨⟨span, .object qs' r'⟩, ?_, ?_⟩
  · rw [toPattern, ExprForm.toPattern, hms]
    rfl
  · simp only [Pattern.bare, PatternForm.bare, hqs, hr]

end Expr.StandsFor
end ModuleBundler
