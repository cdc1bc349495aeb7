import ModuleBundler.Grammar.Expression
import ModuleBundler.Proofs.Grammar.Bracket
import ModuleBundler.Proofs.Tree.Target

/-! How alike the parts are that two readings put together: the same, or the same up to spans and
answered literals. -/
namespace ModuleBundler

/-- Parts that have a form without spans, with the answers in place of literals. -/
class HasBare (α : Type) where
  bare : Answers → α → α

/-- How alike two readings are. -/
inductive Likeness where
  /-- They put the same parts together. -/
  | exact
  /-- The parts are the same but for their spans and the literals that have an answer. -/
  | upTo (a : Answers)

/-- Parts that two readings may put together alike. -/
class Likened (α : Type) where
  like : Likeness → α → α → Prop
  eq_of_exact {x y : α} : like .exact x y → x = y

/-- The second part is like the first one. -/
def Likeness.Like {α : Type} [Likened α] (k : Likeness) (x y : α) : Prop := Likened.like k x y

instance {α : Type} [HasBare α] : Likened α where
  like
    | .exact, x, y => x = y
    | .upTo a, x, y => HasBare.bare a x = HasBare.bare .none y
  eq_of_exact h := h

/-- Parts without spans and literals are like no other ones. -/
class Plain (α : Type) [HasBare α] : Prop where
  bare_eq : ∀ a (x : α), HasBare.bare a x = x

section Instances
variable {α β : Type}

instance : HasBare Bool := ⟨fun _ => id⟩
instance : HasBare Unit := ⟨fun _ => id⟩
instance : HasBare String := ⟨fun _ => id⟩
instance : HasBare VarKind := ⟨fun _ => id⟩
instance : HasBare Modifiers := ⟨fun _ => id⟩

instance : Plain Bool := ⟨fun _ _ => rfl⟩
instance : Plain Unit := ⟨fun _ _ => rfl⟩
instance : Plain String := ⟨fun _ _ => rfl⟩
instance : Plain VarKind := ⟨fun _ _ => rfl⟩
instance : Plain Modifiers := ⟨fun _ _ => rfl⟩

instance : HasBare Span := ⟨fun _ _ => .nowhere⟩
instance : HasBare Ident := ⟨fun _ => Ident.bare⟩
instance : HasBare Expr := ⟨Expr.bare⟩
instance : HasBare ObjectMember := ⟨ObjectMember.bare⟩
instance : HasBare PropertyKey := ⟨PropertyKey.bare⟩
instance : HasBare Param := ⟨Param.bare⟩
instance : HasBare FunctionDef := ⟨FunctionDef.bare⟩
instance : HasBare ClassDef := ⟨ClassDef.bare⟩
instance : HasBare ClassMember := ⟨ClassMember.bare⟩
instance : HasBare Pattern := ⟨Pattern.bare⟩
instance : HasBare PatternForm := ⟨PatternForm.bare⟩
instance : HasBare PatternProperty := ⟨PatternProperty.bare⟩
instance : HasBare Block := ⟨Block.bare⟩
instance : HasBare Stmt := ⟨Stmt.bare⟩
instance : HasBare StmtForm := ⟨StmtForm.bare⟩
instance : HasBare Decl := ⟨Decl.bare⟩
instance : HasBare Binding := ⟨Binding.bare⟩
instance : HasBare ForStart := ⟨ForStart.bare⟩
instance : HasBare ForTarget := ⟨ForTarget.bare⟩
instance : HasBare Handler := ⟨Handler.bare⟩
instance : HasBare SwitchCase := ⟨SwitchCase.bare⟩
instance : HasBare ModuleSource := ⟨fun _ => ModuleSource.bare⟩
instance : HasBare ImportSpecifier := ⟨fun _ => ImportSpecifier.bare⟩
instance : HasBare ImportDecl := ⟨fun _ => ImportDecl.bare⟩
instance : HasBare ExportSpecifier := ⟨fun _ => ExportSpecifier.bare⟩
instance : HasBare ExportDecl := ⟨ExportDecl.bare⟩
instance : HasBare ItemForm := ⟨ItemForm.bare⟩
instance : HasBare Item := ⟨Item.bare⟩

instance [HasBare α] : HasBare (List α) := ⟨fun a => List.map (HasBare.bare a)⟩
instance [HasBare α] : HasBare (Option α) := ⟨fun a => Option.map (HasBare.bare a)⟩
instance [HasBare α] [HasBare β] : HasBare (α × β) :=
  ⟨fun a => Prod.map (HasBare.bare a) (HasBare.bare a)⟩

instance [HasBare α] [Plain α] : Plain (List α) where
  bare_eq a xs := (List.map_congr_left fun x _ => Plain.bare_eq a x).trans (List.map_id' xs)

/-- Two forms are alike if they make expressions at like spans alike. -/
instance : Likened ExprForm where
  like k f f' := ∀ s s' : Span, k.Like s s' → k.Like (⟨s, f⟩ : Expr) ⟨s', f'⟩
  eq_of_exact h := (Expr.mk.inj (h .nowhere .nowhere rfl)).2

end Instances

section Lists
variable {a : Answers}

theorem bareExprs_eq (es : List Expr) : bareExprs a es = HasBare.bare a es :=
  bareExprs_eq_map a es

theorem bareExpr?_eq (e : Option Expr) : bareExpr? a e = HasBare.bare a e :=
  bareExpr?_eq_map a e

theorem bareElements_eq (es : List (Option Expr)) :
    bareElements a es = HasBare.bare a es := bareElements_eq_map a es

theorem bareMembers_eq (ms : List ObjectMember) :
    bareMembers a ms = HasBare.bare a ms := bareMembers_eq_map a ms

theorem bareParams_eq (ps : List Param) : bareParams a ps = HasBare.bare a ps :=
  bareParams_eq_map a ps

theorem bareClassMembers_eq (ms : List ClassMember) :
    bareClassMembers a ms = HasBare.bare a ms := by
  induction ms with
  | nil => rfl
  | cons m ms ih =>
    rw [bareClassMembers, ih]
    rfl

theorem barePattern?_eq (p : Option Pattern) : barePattern? a p = HasBare.bare a p :=
  barePattern?_eq_map a p

theorem barePositions_eq (ps : List (Option Pattern)) :
    barePositions a ps = HasBare.bare a ps := barePositions_eq_map a ps

theorem bareProperties_eq (ps : List PatternProperty) :
    bareProperties a ps = HasBare.bare a ps := bareProperties_eq_map a ps

theorem bareBlock?_eq (b : Option Block) : bareBlock? a b = HasBare.bare a b :=
  bareBlock?_eq_map a b

theorem bareStmts_eq (ss : List Stmt) : bareStmts a ss = HasBare.bare a ss :=
  bareStmts_eq_map a ss

theorem bareStmt?_eq (s : Option Stmt) : bareStmt? a s = HasBare.bare a s :=
  bareStmt?_eq_map a s

theorem bareBindings_eq (bs : List Binding) : bareBindings a bs = HasBare.bare a bs :=
  bareBindings_eq_map a bs

theorem bareCases_eq (cs : List SwitchCase) : bareCases a cs = HasBare.bare a cs :=
  bareCases_eq_map a cs

end Lists

namespace Likeness.Like
variable {k : Likeness} {α β γ δ : Type} {s s' : Span}

theorem eq [HasBare α] [Plain α] {x y : α} (h : k.Like x y) : x = y := by
  cases k with
  | exact => exact h
  | upTo a => exact (Plain.bare_eq a x).symm.trans (h.trans (Plain.bare_eq .none y))

theorem plain [HasBare α] [Plain α] {x : α} : k.Like x x := by
  cases k with
  | exact => rfl
  | upTo a => exact (Plain.bare_eq a x).trans (Plain.bare_eq .none x).symm

/-! ## What is put together of parts that are alike -/

section Congruence
variable [HasBare α] [HasBare β] [HasBare γ] [HasBare δ] {x x' : α} {y y' : β} {z z' : γ}

theorem map (hx : k.Like x x') (C : α → β)
    (hC : ∀ a x, HasBare.bare a (C x) = C (HasBare.bare a x)) : k.Like (C x) (C x') := by
  cases k with
  | exact => exact congrArg C hx
  | upTo a => exact (hC a x).trans ((congrArg C hx).trans (hC .none x').symm)

theorem map₂ (C : α → β → γ)
    (hC : ∀ a x y, HasBare.bare a (C x y) = C (HasBare.bare a x) (HasBare.bare a y))
    (hx : k.Like x x') (hy : k.Like y y') : k.Like (C x y) (C x' y') := by
  cases k with
  | exact => exact congr (congrArg C hx) hy
  | upTo a => exact (hC a x y).trans ((congr (congrArg C hx) hy).trans (hC .none x' y').symm)

theorem map₃ (C : α → β → γ → δ) (hC : ∀ a x y z,
      HasBare.bare a (C x y z) = C (HasBare.bare a x) (HasBare.bare a y) (HasBare.bare a z))
    (hx : k.Like x x') (hy : k.Like y y') (hz : k.Like z z') :
    k.Like (C x y z) (C x' y' z') := by
  cases k with
  | exact => exact congr (congr (congrArg C hx) hy) hz
  | upTo a =>
    exact (hC a x y z).trans ((congr (congr (congrArg C hx) hy) hz).trans (hC .none x' y' z').symm)

theorem pair (hx : k.Like x x') (hy : k.Like y y') : k.Like (x, y) (x', y') :=
  map₂ Prod.mk (fun _ _ _ => rfl) hx hy

theorem fst {p p' : α × β} (h : k.Like p p') : k.Like p.1 p'.1 :=
  h.map Prod.fst fun _ _ => rfl

theorem snd {p p' : α × β} (h : k.Like p p') : k.Like p.2 p'.2 :=
  h.map Prod.snd fun _ _ => rfl

theorem some (h : k.Like x x') : k.Like (Option.some x) (Option.some x') :=
  h.map Option.some fun _ _ => rfl

theorem none : k.Like (Option.none : Option α) Option.none := by cases k <;> rfl

theorem nil : k.Like ([] : List α) [] := by cases k <;> rfl

/-- A part without spans and literals in it. -/
theorem fixed (h : ∀ a, HasBare.bare a x = x) : k.Like x x := by
  cases k with
  | exact => rfl
  | upTo a => exact (h a).trans (h .none).symm

theorem cons {xs xs' : List α} (hx : k.Like x x') (hxs : k.Like xs xs') :
    k.Like (x :: xs) (x' :: xs') :=
  map₂ List.cons (fun _ _ _ => rfl) hx hxs

theorem reverse {xs xs' : List α} (h : k.Like xs xs') : k.Like xs.reverse xs'.reverse :=
  h.map List.reverse fun _ _ => List.map_reverse

/-- The form of an expression that is no fixed text. -/
theorem form (hx : k.Like x x') (C : α → ExprForm)
    (hC : ∀ a s x, (C x).bare a s = C (HasBare.bare a x)) : k.Like (C x) (C x') := by
  intro s s' hs
  cases k with
  | exact => exact congr (congrArg Expr.mk hs) (congrArg C hx)
  | upTo a =>
    exact congrArg (Expr.mk _) ((hC a s x).trans ((congrArg C hx).trans (hC .none s' x').symm))

theorem form₂ (C : α → β → ExprForm)
    (hC : ∀ a s x y, (C x y).bare a s = C (HasBare.bare a x) (HasBare.bare a y))
    (hx : k.Like x x') (hy : k.Like y y') : k.Like (C x y) (C x' y') :=
  (pair hx hy).form (fun p => C p.1 p.2) fun a s p => hC a s p.1 p.2

theorem form₃ (C : α → β → γ → ExprForm) (hC : ∀ a s x y z,
      (C x y z).bare a s = C (HasBare.bare a x) (HasBare.bare a y) (HasBare.bare a z))
    (hx : k.Like x x') (hy : k.Like y y') (hz : k.Like z z') : k.Like (C x y z) (C x' y' z') :=
  form₂ (fun (p : α × β) z => C p.1 p.2 z) (fun a s p z => hC a s p.1 p.2 z) (pair hx hy) hz

/-- A form without parts. -/
theorem leaf {f : ExprForm} (hf : ∀ a s, f.bare a s = f) : k.Like f f :=
  form (x := ()) plain (fun _ => f) fun a s _ => hf a s

end Congruence

theorem expr {f f' : ExprForm} (hs : k.Like s s') (hf : k.Like f f') :
    k.Like (⟨s, f⟩ : Expr) ⟨s', f'⟩ := hf s s' hs

/-- Two options that are alike are both empty, or have values that are alike. -/
theorem cases_option [HasBare α] {x x' : Option α} (h : k.Like x x') :
    x = .none ∧ x' = .none ∨ ∃ u u', x = .some u ∧ x' = .some u' ∧ k.Like u u' := by
  cases k with
  | exact =>
    obtain rfl : x = x' := h
    cases x with
    | none => exact .inl ⟨rfl, rfl⟩
    | some u => exact .inr ⟨u, u, rfl, rfl, rfl⟩
  | upTo a =>
    cases x with
    | none =>
      cases x' with
      | none => exact .inl ⟨rfl, rfl⟩
      | some u' => cases h
    | some u =>
      cases x' with
      | none => cases h
      | some u' => exact .inr ⟨u, u', rfl, rfl, Option.some.inj h⟩

theorem cases_cons [HasBare α] {x : α} {xs ys : List α} (h : k.Like (x :: xs) ys) :
    ∃ y ys', ys = y :: ys' ∧ k.Like x y ∧ k.Like xs ys' := by
  cases k with
  | exact =>
    obtain rfl : x :: xs = ys := h
    exact ⟨x, xs, rfl, rfl, rfl⟩
  | upTo a =>
    cases ys with
    | nil => cases h
    | cons y ys =>
      obtain ⟨h₁, h₂⟩ := List.cons.inj h
      exact ⟨y, ys, rfl, h₁, h₂⟩

/-! ## The parts of a module -/

theorem exprSpan {e e' : Expr} (h : k.Like e e') : k.Like e.span e'.span :=
  h.map Expr.span fun _ e => by cases e; rfl

theorem sequence {e e' : Expr} {es es' : List Expr} (h : k.Like e e') (hs : k.Like es es') :
    k.Like (ExprForm.sequence (e :: es)) (.sequence (e' :: es')) :=
  (h.cons hs).form .sequence fun _ _ _ => by rw [ExprForm.bare, bareExprs_eq]

theorem withDefault {p p' : Pattern} {e e' : Expr} (hp : k.Like p p') (he : k.Like e e') :
    k.Like (⟨p.span.merge e.span, .withDefault p e⟩ : Pattern)
      ⟨p'.span.merge e'.span, .withDefault p' e'⟩ :=
  .map₂ (fun p e => (⟨p.span.merge e.span, .withDefault p e⟩ : Pattern))
    (fun _ p e => by cases p; cases e; rfl) hp he

theorem pattern {f f' : PatternForm} (hs : k.Like s s') (hf : k.Like f f') :
    k.Like (⟨s, f⟩ : Pattern) ⟨s', f'⟩ := .map₂ Pattern.mk (fun _ _ _ => rfl) hs hf

theorem arrayPattern {ps ps' : List (Option Pattern)} {rest rest' : Option Pattern}
    (hps : k.Like ps ps') (hr : k.Like rest rest') :
    k.Like (PatternForm.array ps rest) (.array ps' rest') :=
  .map₂ PatternForm.array (fun a ps rest => by
    rw [← barePositions_eq, ← barePattern?_eq]
    rfl) hps hr

theorem objectPattern {ps ps' : List PatternProperty} {rest rest' : Option Pattern}
    (hps : k.Like ps ps') (hr : k.Like rest rest') :
    k.Like (PatternForm.object ps rest) (.object ps' rest') :=
  .map₂ PatternForm.object (fun a ps rest => by
    rw [← bareProperties_eq, ← barePattern?_eq]
    rfl) hps hr

theorem property {key key' : PropertyKey} {p p' : Pattern} (hk : k.Like key key')
    (hp : k.Like p p') (short : Bool) :
    k.Like (⟨key, p, short⟩ : PatternProperty) ⟨key', p', short⟩ :=
  .map₂ (PatternProperty.mk · · short) (fun _ _ _ => rfl) hk hp

/-- The name that stands for its own value is alike in keys that are alike. -/
theorem shorthandName? {key key' : PropertyKey} (h : k.Like key key') :
    k.Like (Grammar.shorthandName? key) (Grammar.shorthandName? key') := by
  refine h.map Grammar.shorthandName? fun _ key => ?_
  cases key with
  | name i =>
    change Option.map Ident.bare _ = Grammar.shorthandName? (.name i.bare)
    rw [Grammar.shorthandName?, Grammar.shorthandName?]
    split <;> simp_all [Ident.bare]
  | _ => rfl

theorem block {ss ss' : List Stmt} (hs : k.Like s s') (hss : k.Like ss ss') :
    k.Like (⟨s, ss⟩ : Block) ⟨s', ss'⟩ :=
  .map₂ Block.mk (fun a s ss => by
    rw [← bareStmts_eq]
    rfl) hs hss

theorem functionDef {i i' : Option Ident} {ps ps' : List Param} {b b' : Block} {x y : Bool}
    (hi : k.Like i i') (hps : k.Like ps ps') (hb : k.Like b b') :
    k.Like (⟨i, ps, b, x, y⟩ : FunctionDef) ⟨i', ps', b', x, y⟩ :=
  .map₃ (FunctionDef.mk · · · x y) (fun a i ps b => by
    rw [← bareParams_eq]
    rfl) hi hps hb

theorem namesConstructor {key key' : PropertyKey} (h : k.Like key key') :
    Grammar.namesConstructor key' = Grammar.namesConstructor key :=
  (h.map Grammar.namesConstructor fun _ key => by cases key <;> rfl).eq.symm

theorem constructorDef {fn fn' : FunctionDef} (h : k.Like fn fn') :
    k.Like (ClassMember.constructorDef fn.params fn.body) (.constructorDef fn'.params fn'.body) :=
  h.map (fun fn => ClassMember.constructorDef fn.params fn.body) fun _ fn => by
    cases fn
    rfl

theorem method {key key' : PropertyKey} {fn fn' : FunctionDef} {kind : MethodKind}
    {isStatic : Bool} (hk : k.Like key key') (hfn : k.Like fn fn') :
    k.Like (ClassMember.method key kind fn isStatic) (.method key' kind fn' isStatic) :=
  .map₂ (ClassMember.method · kind · isStatic) (fun _ _ _ => rfl) hk hfn

theorem field {key key' : PropertyKey} {e e' : Option Expr} {isStatic : Bool}
    (hk : k.Like key key') (he : k.Like e e') :
    k.Like (ClassMember.field key e isStatic) (.field key' e' isStatic) :=
  .map₂ (ClassMember.field · · isStatic) (fun a key e => by
    rw [← bareExpr?_eq]
    rfl) hk he

/-- The members that are there. -/
theorem present {ms ms' : List (Option ClassMember)} (h : k.Like ms ms') :
    k.Like (ms.filterMap id) (ms'.filterMap id) := by
  refine h.map (List.filterMap id) fun a ms => ?_
  change List.map _ (List.filterMap id ms) = List.filterMap id (List.map (Option.map _) ms)
  simp [List.filterMap_map, List.map_filterMap]

theorem classDef {i i' : Option Ident} {e e' : Option Expr} {ms ms' : List ClassMember}
    (hi : k.Like i i') (he : k.Like e e') (hms : k.Like ms ms') :
    k.Like (⟨i, e, ms⟩ : ClassDef) ⟨i', e', ms'⟩ :=
  .map₃ ClassDef.mk (fun a i e ms => by
    rw [← bareExpr?_eq, ← bareClassMembers_eq]
    rfl) hi he hms

section Expressions
variable {e e' : Expr} {es es' : List Expr} {i i' : Ident} {ps ps' : List Param} {b b' : Block}

theorem spread (hs : k.Like s s') (h : k.Like e e') :
    k.Like (⟨s.merge e.span, .spread e⟩ : Expr) ⟨s'.merge e'.span, .spread e'⟩ :=
  .expr (.map₂ Span.merge (fun _ _ _ => rfl) hs h.exprSpan) (h.form .spread fun _ _ _ => rfl)

theorem call (optional : Bool) (h : k.Like e e') (hs : k.Like es es') :
    k.Like (ExprForm.call optional e es) (.call optional e' es') :=
  .form₂ (.call optional) (fun _ _ _ _ => by rw [ExprForm.bare, bareExprs_eq]; rfl) h hs

theorem newCall (h : k.Like e e') (hs : k.Like es es') :
    k.Like (ExprForm.newCall e es) (.newCall e' es') :=
  .form₂ .newCall (fun _ _ _ _ => by rw [ExprForm.bare, bareExprs_eq]; rfl) h hs

theorem member (optional : Bool) (h : k.Like e e') (hi : k.Like i i') :
    k.Like (ExprForm.member optional e i) (.member optional e' i') :=
  .form₂ (.member optional) (fun _ _ _ _ => rfl) h hi

theorem index {x x' : Expr} (optional : Bool) (h : k.Like e e') (hx : k.Like x x') :
    k.Like (ExprForm.index optional e x) (.index optional e' x') :=
  .form₂ (.index optional) (fun _ _ _ _ => rfl) h hx

theorem taggedTemplate {r r' : List String × List Expr} (h : k.Like e e') (hr : k.Like r r') :
    k.Like (ExprForm.taggedTemplate e r.1 r.2) (.taggedTemplate e' r'.1 r'.2) := by
  rw [← hr.fst.eq]
  exact .form₂ (.taggedTemplate · r.1 ·) (fun _ _ _ _ => by rw [ExprForm.bare, bareExprs_eq]; rfl)
    h hr.snd

/-- A template with expressions in it is no fixed text. -/
theorem template {texts : List String} (h : k.Like e e') (hs : k.Like es es') :
    k.Like (ExprForm.template texts (e :: es)) (.template texts (e' :: es')) :=
  .form₂ (fun e es => .template texts (e :: es))
    (fun _ _ _ _ => by rw [ExprForm.bare, bareExprs_eq]; rfl) h hs

theorem array {es es' : List (Option Expr)} (h : k.Like es es') :
    k.Like (ExprForm.array es) (.array es') :=
  h.form .array fun _ _ _ => by rw [ExprForm.bare, bareElements_eq]

theorem object {ms ms' : List ObjectMember} (h : k.Like ms ms') :
    k.Like (ExprForm.object ms) (.object ms') :=
  h.form .object fun _ _ _ => by rw [ExprForm.bare, bareMembers_eq]

theorem arrow (isAsync : Bool) (hps : k.Like ps ps') (h : k.Like e e') :
    k.Like (ExprForm.arrow isAsync ps e) (.arrow isAsync ps' e') :=
  .form₂ (.arrow isAsync) (fun _ _ _ _ => by rw [ExprForm.bare, bareParams_eq]; rfl) hps h

theorem arrowBlock (isAsync : Bool) (hps : k.Like ps ps') (h : k.Like b b') :
    k.Like (ExprForm.arrowBlock isAsync ps b) (.arrowBlock isAsync ps' b') :=
  .form₂ (.arrowBlock isAsync) (fun _ _ _ _ => by rw [ExprForm.bare, bareParams_eq]; rfl) hps h

theorem yieldExpr {e e' : Option Expr} (delegate : Bool) (h : k.Like e e') :
    k.Like (ExprForm.yieldExpr e delegate) (.yieldExpr e' delegate) :=
  h.form (.yieldExpr · delegate) fun _ _ _ => by rw [ExprForm.bare, bareExpr?_eq]

theorem propertyValue {key key' : PropertyKey} (short : Bool) (hk : k.Like key key')
    (h : k.Like e e') :
    k.Like (ObjectMember.property key e short) (.property key' e' short) :=
  .map₂ (ObjectMember.property · · short) (fun _ _ _ => rfl) hk h

theorem objectMethod {key key' : PropertyKey} {fn fn' : FunctionDef} (kind : MethodKind)
    (hk : k.Like key key') (h : k.Like fn fn') :
    k.Like (ObjectMember.method key kind fn) (.method key' kind fn') :=
  .map₂ (ObjectMember.method · kind ·) (fun _ _ _ => rfl) hk h

/-- The texts of a template and the expressions between them, with the last text. -/
theorem templateParts {ps ps' : List (String × Expr)} (h : k.Like ps ps') (last : String) :
    k.Like (ps.map Prod.fst ++ [last], ps.map Prod.snd)
      (ps'.map Prod.fst ++ [last], ps'.map Prod.snd) := by
  refine h.map (fun ps : List (String × Expr) => (ps.map Prod.fst ++ [last], ps.map Prod.snd))
    fun a ps => ?_
  have hp : HasBare.bare a ps = ps.map (Prod.map id (Expr.bare a)) := rfl
  rw [hp, List.map_map, List.map_map]
  refine Prod.ext (Plain.bare_eq a _) ?_
  exact List.map_map

theorem templateForm {r r' : List String × List Expr} (h : k.Like r r') (he : r.2 = e :: es) :
    k.Like (ExprForm.template r.1 r.2) (.template r'.1 r'.2) := by
  rw [← h.fst.eq]
  have hs := h.snd
  rw [he] at hs ⊢
  obtain ⟨e', es', he', h₁, h₂⟩ := hs.cases_cons
  rw [he']
  exact h₁.template h₂

theorem templateForm_exact {r r' : List String × List Expr} (h : k.Like r r') (hk : k = .exact) :
    k.Like (ExprForm.template r.1 r.2) (.template r'.1 r'.2) := by
  subst hk
  obtain rfl : r = r' := h
  rintro s _ rfl
  rfl

theorem metaProperty (word : String) (hi : k.Like i i') (hs : k.Like s s') :
    k.Like (ExprForm.metaProperty ⟨word, s⟩ i) (.metaProperty ⟨word, s'⟩ i') :=
  .form₂ .metaProperty (fun _ _ _ _ => rfl) (hs.map (Ident.mk word) fun _ _ => rfl) hi

/-- An expression of one token that is no fixed text. -/
theorem literal {t : Token} {f : ExprForm} (h : Grammar.literal? t = Option.some f)
    (ht : t.kind.isText = false) : k.Like f f := by
  unfold Grammar.literal? at h
  split at h <;> cases h
  case h_3 hk => rw [hk] at ht; cases ht
  all_goals exact .leaf fun _ _ => rfl

/-- A key is a name if one that it is like is a name. -/
theorem cases_name {key key' : PropertyKey} (h : k.Like key key') :
    (∃ i i', key = .name i ∧ key' = .name i' ∧ k.Like i i') ∨
      (∀ i, key ≠ .name i) ∧ ∀ i, key' ≠ .name i := by
  cases k with
  | exact =>
    obtain rfl : key = key' := h
    cases key with
    | name i => exact .inl ⟨i, i, rfl, rfl, rfl⟩
    | _ => exact .inr ⟨nofun, nofun⟩
  | upTo a =>
    cases key with
    | name i =>
      cases key' with
      | name i' => exact .inl ⟨i, i', rfl, rfl, PropertyKey.name.inj h⟩
      | _ => cases h
    | _ =>
      cases key' with
      | name i' => cases h
      | _ => exact .inr ⟨nofun, nofun⟩

/-- A name as an expression. -/
theorem identExpr (h : k.Like i i') :
    k.Like (⟨i.span, .ident i.name⟩ : Expr) ⟨i'.span, .ident i'.name⟩ :=
  h.map (fun i => (⟨i.span, .ident i.name⟩ : Expr)) fun _ _ => rfl

end Expressions

section Statements
variable {e e' : Expr} {st st' : Stmt} {b b' : Block}

theorem binding {p p' : Pattern} {e e' : Option Expr} (hp : k.Like p p') (he : k.Like e e') :
    k.Like (⟨p, e⟩ : Binding) ⟨p', e'⟩ :=
  .map₂ Binding.mk (fun a p e => by
    rw [← bareExpr?_eq]
    rfl) hp he

theorem varDecl {r r' : VarKind × List Binding} (h : k.Like r r') :
    k.Like (Decl.vars r.1 r.2) (.vars r'.1 r'.2) := by
  rw [← h.fst.eq]
  exact h.snd.map (Decl.vars r.1) fun _ _ => by rw [← bareBindings_eq]; rfl

theorem forVars {r r' : VarKind × List Binding} (h : k.Like r r') :
    k.Like (ForStart.vars r.1 r.2) (.vars r'.1 r'.2) := by
  rw [← h.fst.eq]
  exact h.snd.map (ForStart.vars r.1) fun _ _ => by rw [← bareBindings_eq]; rfl

theorem ifStmt {no no' : Option Stmt} (he : k.Like e e') (hs : k.Like st st')
    (hn : k.Like no no') : k.Like (StmtForm.ifStmt e st no) (.ifStmt e' st' no') :=
  .map₃ StmtForm.ifStmt (fun _ _ _ _ => by rw [← bareStmt?_eq]; rfl) he hs hn

/-- What a loop starts with is alike: nothing, variables or an expression. -/
theorem cases_forStart {start start' : ForStart} (h : k.Like start start') :
    (start = .nothing ∧ start' = .nothing) ∨
      (∃ kind bs bs', start = .vars kind bs ∧ start' = .vars kind bs' ∧ k.Like bs bs') ∨
      ∃ e e', start = .expr e ∧ start' = .expr e' ∧ k.Like e e' := by
  cases k with
  | exact =>
    obtain rfl : start = start' := h
    cases start with
    | nothing => exact .inl ⟨rfl, rfl⟩
    | vars kind bs => exact .inr (.inl ⟨kind, bs, bs, rfl, rfl, rfl⟩)
    | expr e => exact .inr (.inr ⟨e, e, rfl, rfl, rfl⟩)
  | upTo a =>
    cases start with
    | nothing =>
      cases start' with
      | nothing => exact .inl ⟨rfl, rfl⟩
      | _ => cases h
    | vars kind bs =>
      cases start' with
      | vars kind' bs' =>
        obtain ⟨rfl, hbs⟩ := ForStart.vars.inj h
        rw [bareBindings_eq, bareBindings_eq] at hbs
        exact .inr (.inl ⟨kind, bs, bs', rfl, rfl, hbs⟩)
      | _ => cases h
    | expr e =>
      cases start' with
      | expr e' => exact .inr (.inr ⟨e, e', rfl, rfl, ForStart.expr.inj h⟩)
      | _ => cases h

theorem targetVars {kind : VarKind} {bs bs' : List Binding} (h : k.Like bs bs') :
    k.Like (ForTarget.vars kind bs) (.vars kind bs') :=
  h.map (ForTarget.vars kind) fun _ _ => by rw [← bareBindings_eq]; rfl

/-- Expressions that are alike are targets that are alike, or neither is one. -/
theorem cases_toPattern (h : k.Like e e') :
    (∃ p p', e.toPattern = .ok p ∧ e'.toPattern = .ok p' ∧ k.Like p p') ∨
      ∃ x x', e.toPattern = .error x ∧ e'.toPattern = .error x' := by
  have hp : k.Like e.toPattern.toOption e'.toPattern.toOption :=
    h.map (fun e => e.toPattern.toOption) fun _ e => (Expr.toPattern_bare _ e).symm
  cases he : e.toPattern with
  | ok p =>
    cases he' : e'.toPattern with
    | ok p' =>
      rw [he, he'] at hp
      obtain ⟨h, -⟩ | ⟨_, _, h, h', hp⟩ := hp.cases_option
      · cases h
      · cases h
        cases h'
        exact .inl ⟨p, p', rfl, rfl, hp⟩
    | error x' =>
      rw [he, he'] at hp
      obtain ⟨h, -⟩ | ⟨_, _, -, h, -⟩ := hp.cases_option <;> cases h
  | error x =>
    cases he' : e'.toPattern with
    | ok p' =>
      rw [he, he'] at hp
      obtain ⟨-, h⟩ | ⟨_, _, h, -⟩ := hp.cases_option <;> cases h
    | error x' => exact .inr ⟨x, x', rfl, rfl⟩

theorem forStmt {start start' : ForStart} {test test' update update' : Option Expr}
    (h : k.Like start start') (ht : k.Like test test') (hu : k.Like update update')
    (hs : k.Like st st') :
    k.Like (StmtForm.forStmt start test update st) (.forStmt start' test' update' st') :=
  .map₃ (fun start (r : Option Expr × Option Expr) st => StmtForm.forStmt start r.1 r.2 st)
    (fun a start r st => by
      have hf : (StmtForm.forStmt start r.1 r.2 st).bare a
        = .forStmt (start.bare a) (bareExpr? a r.1) (bareExpr? a r.2) (st.bare a) := rfl
      rw [bareExpr?_eq, bareExpr?_eq] at hf
      exact hf) h (ht.pair hu) hs

theorem forIn {target target' : ForTarget} (h : k.Like target target') (he : k.Like e e')
    (hs : k.Like st st') : k.Like (StmtForm.forIn target e st) (.forIn target' e' st') :=
  .map₃ StmtForm.forIn (fun _ _ _ _ => rfl) h he hs

theorem forOf {target target' : ForTarget} (isAwait : Bool) (h : k.Like target target')
    (he : k.Like e e') (hs : k.Like st st') :
    k.Like (StmtForm.forOf isAwait target e st) (.forOf isAwait target' e' st') :=
  .map₃ (StmtForm.forOf isAwait) (fun _ _ _ _ => rfl) h he hs

theorem switchCase {e e' : Option Expr} {ss ss' : List Stmt} (he : k.Like e e')
    (hs : k.Like ss ss') : k.Like (⟨e, ss⟩ : SwitchCase) ⟨e', ss'⟩ :=
  .map₂ SwitchCase.mk (fun _ _ _ => by rw [← bareExpr?_eq, ← bareStmts_eq]; rfl) he hs

theorem switchStmt {cs cs' : List SwitchCase} (he : k.Like e e') (hs : k.Like cs cs') :
    k.Like (StmtForm.switchStmt e cs) (.switchStmt e' cs') :=
  .map₂ StmtForm.switchStmt (fun _ _ _ => by rw [← bareCases_eq]; rfl) he hs

theorem returnStmt {e e' : Option Expr} (h : k.Like e e') :
    k.Like (StmtForm.returnStmt e) (.returnStmt e') :=
  h.map StmtForm.returnStmt fun _ _ => by rw [← bareExpr?_eq]; rfl

theorem handler {p p' : Option Pattern} (hp : k.Like p p') (hb : k.Like b b') :
    k.Like (Handler.catch p b) (.catch p' b') :=
  .map₂ Handler.catch (fun _ _ _ => by rw [← barePattern?_eq]; rfl) hp hb

/-- Both handlers handle exceptions, or none does. -/
theorem cases_handler {x x' : Handler} (h : k.Like x x') :
    x = .nothing ∧ x' = .nothing ∨ ∃ p b p' b', x = .catch p b ∧ x' = .catch p' b' := by
  cases k with
  | exact =>
    obtain rfl : x = x' := h
    cases x with
    | nothing => exact .inl ⟨rfl, rfl⟩
    | «catch» p b => exact .inr ⟨p, b, p, b, rfl, rfl⟩
  | upTo a =>
    cases x with
    | nothing =>
      cases x' with
      | nothing => exact .inl ⟨rfl, rfl⟩
      | «catch» => cases h
    | «catch» p b =>
      cases x' with
      | nothing => cases h
      | «catch» p' b' => exact .inr ⟨p, b, p', b', rfl, rfl⟩

theorem tryStmt {x x' : Handler} {f f' : Option Block} (hb : k.Like b b') (hx : k.Like x x')
    (hf : k.Like f f') : k.Like (StmtForm.tryStmt b x f) (.tryStmt b' x' f') :=
  .map₃ StmtForm.tryStmt (fun _ _ _ _ => by rw [← bareBlock?_eq]; rfl) hb hx hf

/-- The statements of a block are a statement. -/
theorem blockStmt (h : k.Like b b') : k.Like (StmtForm.block b.stmts) (.block b'.stmts) :=
  h.map (fun b => StmtForm.block b.stmts) fun _ b => by cases b; rfl

theorem stmt {f f' : StmtForm} (hs : k.Like s s') (hf : k.Like f f') :
    k.Like (⟨s, f⟩ : Stmt) ⟨s', f'⟩ := .map₂ Stmt.mk (fun _ _ _ => rfl) hs hf

end Statements

section Modules

theorem moduleSource (value : String) (hs : k.Like s s') :
    k.Like (⟨value, s⟩ : ModuleSource) ⟨value, s'⟩ :=
  hs.map (ModuleSource.mk value) fun _ _ => rfl

theorem namedImport {i i' : Ident} {x x' : Option Ident} (hi : k.Like i i') (hx : k.Like x x') :
    k.Like (ImportSpecifier.named i x) (.named i' x') :=
  .map₂ ImportSpecifier.named (fun _ _ _ => rfl) hi hx

theorem importDecl {is is' : List ImportSpecifier} {m m' : ModuleSource} (hi : k.Like is is')
    (hm : k.Like m m') : k.Like (⟨is, m⟩ : ImportDecl) ⟨is', m'⟩ :=
  .map₂ ImportDecl.mk (fun _ _ _ => rfl) hi hm

theorem namedExport {i i' : Ident} {x x' : Option Ident} (hi : k.Like i i') (hx : k.Like x x') :
    k.Like (⟨i, x⟩ : ExportSpecifier) ⟨i', x'⟩ :=
  .map₂ ExportSpecifier.mk (fun _ _ _ => rfl) hi hx

theorem exportNames {es es' : List ExportSpecifier} {m m' : Option ModuleSource}
    (he : k.Like es es') (hm : k.Like m m') :
    k.Like (ExportDecl.named es m) (.named es' m') :=
  .map₂ ExportDecl.named (fun _ _ _ => rfl) he hm

theorem exportAll {m m' : ModuleSource} {x x' : Option Ident} (hm : k.Like m m')
    (hx : k.Like x x') : k.Like (ExportDecl.all m x) (.all m' x') :=
  .map₂ ExportDecl.all (fun _ _ _ => rfl) hm hx

theorem exportDefault {r r' : Span × Decl} (h : k.Like r r') :
    k.Like (ExportDecl.defaultDecl r.1 r.2) (.defaultDecl r'.1 r'.2) :=
  h.map (fun r => ExportDecl.defaultDecl r.1 r.2) fun _ _ => rfl

theorem exportDecl {r r' : Span × Decl} (h : k.Like r r') :
    k.Like (ExportDecl.decl r.1 r.2) (.decl r'.1 r'.2) :=
  h.map (fun r => ExportDecl.decl r.1 r.2) fun _ _ => rfl

theorem item {f f' : ItemForm} (hs : k.Like s s') (hf : k.Like f f') :
    k.Like (⟨s, f⟩ : Item) ⟨s', f'⟩ := .map₂ Item.mk (fun _ _ _ => rfl) hs hf

end Modules

end Likeness.Like
end ModuleBundler
