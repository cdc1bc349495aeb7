import ModuleBundler.Proofs.Grammar.Lockstep

/-! Corresponding places are read alike: keys, patterns, parameters, functions and classes. -/
namespace ModuleBundler.Lockstep
open ModuleBundler.Parser ModuleBundler.Grammar

/-- Why what a loop starts with is no target for its values is alike on both sides. -/
def Targets (L : Lockstep) (g : Grammar) : Prop :=
  ∀ ⦃n b m a m' a' s s' c d c₁ d₁ x x' e e'⦄, L.At n m a s c d →
    commaSequence g.assignment b c = .ok x c₁ → L.At n m' a' s' c₁ d₁ → L.likeness.Like x x' →
    x.toPattern = .error e → x'.toPattern = .error e' → L.Err e c₁ e' d₁

/-- Where all errors correspond, these do. -/
theorem targets_of_err {L : Lockstep} (h : ∀ e c e' d, L.Err e c e' d) (g : Grammar) :
    L.Targets g := by
  intro n b m a m' a' s s' c d c₁ d₁ x x' e e' _ _ _ _ _ _
  exact h e c₁ e' d₁

/-- The readers of parts read alike from all places with fewer than `n` tokens left. -/
structure Parts (L : Lockstep) (n : Nat) (g g' : Grammar) : Prop where
  expression : ∀ {p b a s c d}, L.At n true a s c d →
    L.Ends (s = []) n true true s (g.expression p b c) (g'.expression p b d)
  primary : ∀ {b a s c d}, L.At n true a s c d →
    L.Ends (s = []) n true true s (g.primary b c) (g'.primary b d)
  pattern : ∀ {b a s c d}, L.At n true a s c d →
    L.Ends (s = []) n true true s (g.pattern b c) (g'.pattern b d)
  statement : ∀ {b s c d}, L.At n true true s c d →
    L.Ends (s = []) n true true s (g.statement b c) (g'.statement b d)
  /-- Where a script may end before its errors matter, readers of parts need a token. -/
  accounts : L.loses → g.Accounts
  targets : L.Targets g

namespace Parts
variable {L : Lockstep} {lost : Prop} {n : Nat} {m a : Bool} {s : List Bracket} {c d : Cursor}
  {g g' : Grammar} (hg : L.Parts n g g') {b : Bool}

/-! ## Keys, patterns and parameters -/

theorem commaSequence {item item' : Parser Expr}
    (first : L.Ends (s = []) n true true s (item b c) (item' b d))
    (items : ∀ {c d}, L.At n true true s c d →
      L.Ends (s = []) n true true s (item b c) (item' b d)) :
    L.Ends (s = []) n true true s (commaSequence item b c) (commaSequence item' b d) := by
  refine first.bind fun _ hx t => .get (.ite (t.sees rfl) (fun _ => ?_) fun _ => .pure hx t)
  refine (t.many (fun t => t.sees rfl) fun t _ => ?_).bind fun _ hxs t => ?_
  · exact (t.consumeMark rfl rfl).bind fun _ _ t => items t
  · exact t.spanned hx.exprSpan (hx.sequence hxs)

include hg

theorem assignment (t : L.At n true a s c d) :
    L.Ends (s = []) n true true s (g.assignment b c) (g'.assignment b d) :=
  hg.expression t

theorem sequence (t : L.At n true a s c d) :
    L.Ends (s = []) n true true s (Grammar.commaSequence g.assignment b c)
      (Grammar.commaSequence g'.assignment b d) :=
  commaSequence (hg.assignment t) hg.assignment

theorem enclosed (t : L.At n true a s c d) :
    L.Ends (s = []) n true true s (g.enclosed b c) (g'.enclosed b d) :=
  hg.sequence t

theorem propertyKey (t : L.At n m true s c d) :
    L.Ends (s = []) n true true s (g.propertyKey b c) (g'.propertyKey b d) := by
  by_cases h : c.Stopped L.loses s d
  · exact .of_stopped h (L.ended t) fun h' => ⟨_, _, (hg.accounts h.loses).propertyKey h'⟩
  have hs := t.same h
  refine .get ?_
  rw [hs.kind]
  generalize hk : c.current.kind = kind
  split
  iterate 3
    refine t.advance (by simp [Cursor.atEnd, hk]) (by rw [hk]; rfl) (by simp [hk]) fun t => ?_
    rw [hs.value]
    exact .pure (.fixed fun _ => rfl) t
  · exact t.propertyName.bind fun _ h t => .pure (h.map PropertyKey.privateName fun _ _ => rfl) t
  · refine (t.consumeMark rfl rfl).bind fun _ _ t => ?_
    refine Ends.bind (hg.assignment t).inside fun _ h t => ?_
    refine (t.consumeMark (Bracket.step_rBracket s) rfl).bind fun _ _ t => ?_
    exact .pure (h.map PropertyKey.computed fun _ _ => rfl) t
  · exact t.propertyName.bind fun _ h t => .pure (h.map PropertyKey.name fun _ _ => rfl) t

theorem defaultFor {p p' : Pattern} (hp : L.likeness.Like p p') (t : L.At n true true s c d) :
    L.Ends (s = []) n true true s (g.defaultFor p b c) (g'.defaultFor p' b d) := by
  refine Ends.bindPlain (t.eat? rfl fun _ => rfl) fun _ t => ?_
  refine .ite rfl (fun _ => ?_) fun _ => .pure hp t
  exact (hg.assignment t).bind fun _ hv t => .pure (hp.withDefault hv) t

theorem patternWithDefault (t : L.At n true a s c d) :
    L.Ends (s = []) n true true s (g.patternWithDefault b c) (g'.patternWithDefault b d) :=
  (hg.pattern t).bind fun _ hp t => hg.defaultFor hp t

theorem restPattern (t : L.At n true true s c d) :
    L.Ends (s = []) n true true s (g.restPattern b c) (g'.restPattern b d) :=
  t.after rfl (fun _ => rfl) hg.pattern

omit hg in
theorem partsGoOn {bracket : Bracket} (t : L.At n m a (bracket :: s) c d) (close : Punctuator) :
    Grammar.partsGoOn close d = Grammar.partsGoOn close c := by
  rw [Grammar.partsGoOn, Grammar.partsGoOn, Cursor.seesMark, Cursor.seesMark, Cursor.seesMark,
    Cursor.seesMark, t.sees_inside rfl, t.sees_inside rfl, t.atEnd_inside]

theorem arrayPosition (t : L.At n true true (.square :: s) c d) :
    L.Ends lost n true true (.square :: s) (g.arrayPosition b c) (g'.arrayPosition b d) := by
  refine Ends.bindPlain (t.eat? rfl fun _ => rfl) fun _ t => ?_
  refine .ite rfl (fun _ => .pure .none t) fun _ => ?_
  refine (hg.patternWithDefault t).inside.bind fun _ h t => ?_
  exact t.separator.bind fun _ _ t => .pure h.some t

theorem arrayPattern (t : L.At n m a s c d) :
    L.Ends lost n true true s (g.arrayPattern b c) (g'.arrayPattern b d) := by
  refine (t.consumeMark rfl rfl).bind fun _ _ t => ?_
  refine (t.many (fun t => partsGoOn t _) fun t _ => hg.arrayPosition t).bind fun _ hps t => ?_
  refine (hg.restPattern t).inside.bind fun _ hr t => ?_
  refine (t.consumeMark (Bracket.step_rBracket s) rfl).bind fun _ _ t => ?_
  exact .pure (hps.arrayPattern hr) t

theorem keyedPattern {key key' : PropertyKey} (hk : L.likeness.Like key key')
    (t : L.At n true true s c d) :
    L.Ends (s = []) n true true s (g.keyedPattern key b c) (g'.keyedPattern key' b d) := by
  refine Ends.bindPlain (t.eat? rfl fun _ => rfl) fun _ t => .ite rfl (fun _ => ?_) fun _ => ?_
  · exact (hg.patternWithDefault t).bind fun _ hp t => .pure (hk.property hp _) t
  · have hn := hk.shorthandName?
    generalize shorthandName? key = i? at hn
    generalize shorthandName? key' = i?' at hn
    obtain ⟨rfl, rfl⟩ | ⟨i, i', rfl, rfl, hi⟩ := hn.cases_option
    · exact .fail t
    · have hv : L.likeness.Like (⟨i.span, .ident i⟩ : Pattern) ⟨i'.span, .ident i'⟩ :=
        hi.map (fun i => (⟨i.span, .ident i⟩ : Pattern)) fun _ _ => rfl
      exact Ends.bind (hg.defaultFor hv t) fun _ hp t => .pure (hk.property hp _) t

theorem patternProperty (t : L.At n m true (.curly :: s) c d) :
    L.Ends lost n true true (.curly :: s) (g.patternProperty b c) (g'.patternProperty b d) := by
  refine (hg.propertyKey t).inside.bind fun _ hk t => ?_
  refine (hg.keyedPattern hk t).inside.bind fun _ hp t => ?_
  exact t.separator.bind fun _ _ t => .pure hp t

theorem objectPattern (t : L.At n m a s c d) :
    L.Ends lost n true true s (g.objectPattern b c) (g'.objectPattern b d) := by
  refine (t.consumeMark rfl rfl).bind fun _ _ t => ?_
  refine (t.many (fun t => partsGoOn t _) fun t _ => hg.patternProperty t).bind fun _ hps t => ?_
  refine (hg.restPattern t).inside.bind fun _ hr t => ?_
  refine (t.consumeMark (Bracket.step_rBrace s) rfl).bind fun _ _ t => ?_
  exact .pure (hps.objectPattern hr) t

theorem patternForm (t : L.At n m a s c d) (h : ¬ c.Stopped L.loses s d) :
    L.Ends lost n true true s (g.patternForm b c) (g'.patternForm b d) := by
  refine .get ?_
  rcases L.view t with h | ⟨-, h⟩ | h
  · rw [h.kind]
    generalize c.current.kind = kind
    split
    · exact hg.arrayPattern t
    · exact hg.objectPattern t
    · exact t.ident.map fun h => h.map PatternForm.ident fun _ _ => rfl
    · exact .unexpected t
  · have ht := h.text
    rw [h.answer]
    generalize c.current.kind = kind at ht
    cases kind <;> first | exact .unexpected t | cases ht
  · contradiction

theorem readPattern (t : L.At n m a s c d) :
    L.Ends (s = []) n true true s (g.readPattern b c) (g'.readPattern b d) := by
  by_cases h : c.Stopped L.loses s d
  · exact .of_stopped h (L.ended t) fun h' => ⟨_, _, ((hg.accounts h.loses).readPattern h').takes⟩
  have hs := t.span h
  refine .here ((hg.patternForm t h).bind fun _ hf t => (t.spanFrom hs).bind fun _ hs t => ?_)
  exact .pure (.pattern hs hf) t

theorem param (t : L.At n true a s c d) :
    L.Ends (s = []) n true true s (g.param b c) (g'.param b d) := by
  refine t.eat rfl rfl (fun t => ?_) fun _ => ?_
  · exact (hg.pattern t).bind fun _ hp t => .pure (hp.map (Param.mk · true) fun _ _ => rfl) t
  · exact (hg.patternWithDefault t).bind fun _ hp t =>
      .pure (hp.map (Param.mk · false) fun _ _ => rfl) t

/-- Parameters end with their parenthesis, so none of their errors are lost. -/
theorem params (t : L.At n m a s c d) :
    L.Ends lost n true true s (g.params b c) (g'.params b d) := by
  refine t.consumeParen.bind fun _ _ t => ?_
  exact t.commaList (Bracket.step_rParen s) rfl fun t => (hg.param t).inside.weaken

/-! ## Blocks, functions and classes -/

theorem block (t : L.At n m a s c d) :
    L.Ends (s = []) n true true s (g.block b c) (g'.block b d) := by
  by_cases h : c.Stopped L.loses s d
  · exact .of_stopped h (L.ended t) fun h' => ⟨_, _, ((hg.accounts h.loses).block h').takes⟩
  have hs := t.span h
  refine .here ((t.consumeMark rfl rfl).bind fun _ _ t => ?_)
  refine (t.manyUntil fun t => (hg.statement t).inside).bind fun _ hss t => ?_
  refine (t.consumeMark (Bracket.step_rBrace s) rfl).bind fun _ _ t => ?_
  exact (t.spanFrom hs).bind fun _ hs t => .pure (.block hs hss) t

theorem functionTail {name name' : Option Ident} (hn : L.likeness.Like name name')
    (isAsync isGenerator : Bool) (t : L.At n m a s c d) :
    L.Ends (s = []) n true true s (g.functionTail name isAsync isGenerator b c)
      (g'.functionTail name' isAsync isGenerator b d) :=
  Ends.bind (hg.params t) fun _ hps t => Ends.bind (hg.block t) fun _ hb t =>
    .pure (hn.functionDef hps hb) t

omit hg in
theorem declaredName (nameOptional : Bool) (missing : Fault) (t : L.At n true true s c d) :
    L.Ends lost n true true s (Grammar.declaredName nameOptional missing b c)
      (Grammar.declaredName nameOptional missing b d) := by
  refine .get (.ite (t.sees rfl) (fun _ => ?_) fun _ => ?_)
  · exact t.ident.bind fun _ h t => .pure h.some t
  · exact .ite rfl (fun _ => .pure .none t) fun _ => .fail t

theorem function (nameOptional : Bool) (t : L.At n m a s c d) :
    L.Ends (s = []) n true true s (g.function nameOptional b c)
      (g'.function nameOptional b d) := by
  refine (t.eatWord _).bindPlain fun _ t => (t.consumeKeyword rfl).bind fun _ _ t => ?_
  refine Ends.bindPlain (t.eat? rfl fun _ => rfl) fun _ t => ?_
  exact (declaredName _ _ t).bind fun _ hn t => hg.functionTail hn _ _ t

theorem methodOrField (isStatic : Bool) (t : L.At n m true (.curly :: s) c d) :
    L.Ends lost n true true (.curly :: s) (g.methodOrField isStatic b c)
      (g'.methodOrField isStatic b d) := by
  refine t.modifiers.bindPlain fun _ t => (hg.propertyKey t).inside.bind fun _ hk t => ?_
  refine .get (.ite (t.sees rfl) (fun _ => ?_) fun _ => .ite rfl (fun _ => .fail t) fun _ => ?_)
  · refine (hg.functionTail .none _ _ t).inside.bind fun _ hfn t => ?_
    refine .ite ?_ (fun _ => .pure hfn.constructorDef t) fun _ => .pure (hk.method hfn) t
    rw [hk.namesConstructor]
  · refine Ends.bind (t.after rfl (fun _ => rfl) fun t => (hg.assignment t).inside) fun _ he t => ?_
    exact t.semicolon.bind fun _ _ t => .pure (hk.field he) t

theorem classMember (t : L.At n m true (.curly :: s) c d) :
    L.Ends lost n true true (.curly :: s) (g.classMember b c) (g'.classMember b d) := by
  refine (t.modifier _).bindPlain fun _ t => .get (.ite ?_ (fun _ => ?_) fun _ => ?_)
  · rw [Cursor.seesMark, Cursor.seesMark, t.sees rfl]
  · exact Ends.bind (hg.block t).inside fun _ hb t =>
      .pure (hb.map ClassMember.staticBlock fun _ _ => rfl) t
  · exact hg.methodOrField _ t

theorem classMember? (t : L.At n m true (.curly :: s) c d) :
    L.Ends lost n true true (.curly :: s) (g.classMember? b c) (g'.classMember? b d) :=
  t.eat rfl rfl (fun t => .pure .none t) fun _ =>
    (hg.classMember t).bind fun _ hm t => .pure hm.some t

theorem classDef (nameOptional : Bool) (t : L.At n m a s c d) :
    L.Ends (s = []) n true true s (g.classDef nameOptional b c)
      (g'.classDef nameOptional b d) := by
  refine (t.consumeKeyword rfl).bind fun _ _ t => (declaredName _ _ t).bind fun _ hn t => ?_
  refine (t.after rfl (fun _ => rfl) hg.expression).bind fun _ he t => ?_
  refine (t.consumeMark rfl rfl).bind fun _ _ t => ?_
  refine (t.manyUntil hg.classMember?).bind fun _ hms t => ?_
  refine (t.consumeMark (Bracket.step_rBrace s) rfl).bind fun _ _ t => ?_
  exact .pure (hn.classDef he hms.present) t

end Parts
end ModuleBundler.Lockstep
