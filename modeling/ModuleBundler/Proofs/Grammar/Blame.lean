import ModuleBundler.Proofs.Grammar.Depth
import ModuleBundler.Proofs.Grammar.ReadingStatement

/-! What a reader that fails blames: tokens that it has passed, or the one that it stands before. -/
namespace ModuleBundler
open EStateM (Result)

/-! ## Expressions that are no targets -/

/-- A fault is about some tokens next to each other. -/
def ParseError.About (e : ParseError) (w : List Token) : Prop := ∃ v, v <:+: w ∧ e.span.Covers v

theorem ParseError.About.mono {e : ParseError} {v w : List Token} (h : e.About v) (hv : v <:+: w) :
    e.About w := by
  obtain ⟨u, hu, hc⟩ := h
  exact ⟨u, hu.trans hv, hc⟩

section Targets
variable {w : List Token} {e : ParseError}

/-- A fault at the span of a node is about the tokens that the node covers. -/
theorem Outline.Nested.about {fault : Fault} {span : Span} {os : List Outline}
    (h : (Outline.node span os).Nested w) : (⟨fault, span⟩ : ParseError).About w := by
  cases h with
  | node window covers => exact ⟨_, window, covers⟩

/-- The parts of a node stand among the tokens that it stands among. -/
theorem Outline.Nested.parts {span : Span} {os : List Outline}
    (h : (Outline.node span os).Nested w) : ∀ o ∈ os, o.Nested w := by
  cases h with
  | node window _ inner => exact fun o ho => (inner o ho).mono window

/-- The value of a property stands among the tokens that the property stands among. -/
theorem Outline.Nested.value {key : PropertyKey} {keys : List Outline} {value : Outline}
    {short : Bool} (h : ∀ o ∈ outlinesOfProperty key keys value short, o.Nested w) :
    value.Nested w := by
  unfold outlinesOfProperty at h
  split at h
  · cases h _ (List.mem_singleton_self _) with
    | shorthand _ inner => exact inner
  · exact h _ (by simp)

mutual

/-- If an expression is no target, the fault is about the tokens of it or of one of its parts. -/
theorem Expr.about_of_toPattern : ∀ x : Expr, x.toPattern = .error e → x.outline.Nested w →
    e.About w
  | ⟨span, form⟩, h, hn => form.about_of_toPattern span h hn

theorem ExprForm.about_of_toPattern (span : Span) : ∀ f : ExprForm, f.toPattern span = .error e →
    (Outline.node span f.outlines).Nested w → e.About w
  | .ident _, h, _ => by cases h
  | .paren inner, h, hn => inner.about_of_toPattern h (hn.parts _ (List.mem_singleton_self _))
  | .member optional _ _, h, hn | .index optional _ _, h, hn => by
    cases optional with
    | false => cases h
    | true =>
      cases h
      exact hn.about
  | .assignment op target value, h, hn => by
    cases op with
    | assign =>
      rcases Except.bind_eq_error.mp h with h | ⟨p, -, h⟩
      · exact target.about_of_toPattern h (hn.parts _ List.mem_cons_self)
      · cases h
    | _ =>
      cases h
      exact hn.about
  | .array elements, h, hn => by
    rcases Except.bind_eq_error.mp h with h | ⟨r, -, h⟩
    · exact about_of_arrayTargets elements h hn.parts
    · cases h
  | .object members, h, hn => by
    rcases Except.bind_eq_error.mp h with h | ⟨r, -, h⟩
    · exact about_of_objectTargets span members h hn hn.parts
    · cases h
  | .number _, h, hn | .bigInt _, h, hn | .string _, h, hn | .boolean _, h, hn | .null, h, hn
  | .regExp .., h, hn | .binary .., h, hn | .unary .., h, hn | .call .., h, hn | .arrow .., h, hn
  | .arrowBlock .., h, hn | .functionExpr _, h, hn | .classExpr _, h, hn | .conditional .., h, hn
  | .template .., h, hn | .taggedTemplate .., h, hn | .newCall .., h, hn | .awaitExpr _, h, hn
  | .yieldExpr .., h, hn | .sequence _, h, hn | .spread _, h, hn | .metaProperty .., h, hn
  | .thisExpr, h, hn | .superExpr, h, hn => by
    cases h
    exact hn.about

theorem about_of_arrayTargets : ∀ es : List (Option Expr), arrayTargets es = .error e →
    (∀ o ∈ outlinesOfElements es, o.Nested w) → e.About w
  | [], h, _ => by cases h
  | none :: es, h, hn => by
    rcases Except.bind_eq_error.mp h with h | ⟨r, -, h⟩
    · exact about_of_arrayTargets es h hn
    · cases h
  | some ⟨span, form⟩ :: es, h, hn => by
    have hform := hn (.node span form.outlines) List.mem_cons_self
    have hes := fun o ho => hn o (List.mem_cons_of_mem _ ho)
    by_cases hs : ∃ inner, form = .spread inner
    · obtain ⟨inner, rfl⟩ := hs
      rcases Except.bind_eq_error.mp h with h | ⟨p, -, h⟩
      · exact inner.about_of_toPattern h (hform.parts _ (List.mem_singleton_self _))
      rcases Except.bind_eq_error.mp h with h | ⟨r, -, h⟩
      · exact about_of_arrayTargets es h hes
      · cases h
    · have hn : ∀ inner, form = .spread inner → False := fun inner h => hs ⟨inner, h⟩
      rw [arrayTargets.eq_4 _ _ _ hn] at h
      rcases Except.bind_eq_error.mp h with h | ⟨p, -, h⟩
      · exact form.about_of_toPattern span h hform
      rcases Except.bind_eq_error.mp h with h | ⟨r, -, h⟩
      · exact about_of_arrayTargets es h hes
      · cases h

theorem about_of_objectTargets (span : Span) : ∀ (ms : List ObjectMember) {os : List Outline},
    objectTargets span ms = .error e → (Outline.node span os).Nested w →
    (∀ o ∈ outlinesOfMembers ms, o.Nested w) → e.About w
  | [], _, h, _, _ => by cases h
  | .property key value short :: ms, _, h, hn, hm => by
    obtain ⟨hv, hms⟩ := List.forall_mem_append.mp hm
    rcases Except.bind_eq_error.mp h with h | ⟨p, -, h⟩
    · exact value.about_of_toPattern h (.value hv)
    rcases Except.bind_eq_error.mp h with h | ⟨r, -, h⟩
    · exact about_of_objectTargets span ms h hn hms
    · cases h
  | .spread value :: ms, _, h, hn, hm => by
    obtain ⟨hv, hms⟩ := List.forall_mem_append.mp hm
    rcases Except.bind_eq_error.mp h with h | ⟨p, -, h⟩
    · exact value.about_of_toPattern h (hv _ (List.mem_singleton_self _))
    rcases Except.bind_eq_error.mp h with h | ⟨r, -, h⟩
    · exact about_of_objectTargets span ms h hn hms
    · cases h
  | .method .. :: _, _, h, hn, _ => by
    cases h
    exact hn.about

end

end Targets

/-! ## Readers and what they blame -/

namespace Cursor

/-- From a place a later one has been reached, and a fault is about tokens in between or the one
that comes next. -/
def Blames (c : Cursor) (e : ParseError) (c' : Cursor) : Prop :=
  ∃ w, c.Moves w c' ∧ e.About (w ++ [c'.current])

variable {o c c' : Cursor} {e : ParseError} {cs : List Char}

/-- Tokens passed before do not matter. -/
theorem Blames.before {w : List Token} (h : c.Blames e c') (hw : o.Moves w c) : o.Blames e c' := by
  obtain ⟨v, hv, he⟩ := h
  refine ⟨w ++ v, hw.trans hv, he.mono ?_⟩
  rw [List.append_assoc]
  exact (List.suffix_append w _).isInfix

/-- A fault at the next token. -/
theorem blames_fault (f : TokenKind → Fault) : c.Blames (c.fault f) c :=
  ⟨[], .refl c, [c.current], List.infix_refl _, rfl, rfl⟩

/-- The span from the first token that is passed to the one that comes next. -/
theorem Placed.covers_merge {w : List Token}
    (hc : c.Placed cs) (h : c.Moves w c') :
    (c.current.span.merge c'.current.span).Covers (w ++ [c'.current]) := by
  cases w with
  | nil =>
    obtain ⟨ht, -⟩ := List.cons.inj h.tokens
    rw [ht, Span.merge_self]
    exact ⟨rfl, rfl⟩
  | cons t w =>
    obtain ⟨rfl, -⟩ := List.cons.inj h.tokens
    obtain ⟨hfirst, hbefore⟩ := (hc.passed h).1 _ List.mem_cons_self
    have hle := Nat.le_trans hfirst.ordered hbefore
    have hlast := ((hc.moves h).fits _ List.mem_cons_self).ordered
    constructor
    · exact congrArg some (Nat.min_eq_left hle).symm
    · rw [List.getLast?_concat]
      exact congrArg some (Nat.max_eq_right (Nat.le_trans hbefore hlast)).symm

/-- A call of `import` is blamed from the word to the parenthesis. -/
theorem Placed.blames_import (hc : c.Placed cs) (h : c.atEnd = false) :
    c.Blames ⟨.dynamicImport, c.current.span.merge c.next.current.span⟩ c.next := by
  have hw := Cursor.moves_next hc.ended h
  exact ⟨_, hw, _, List.infix_refl _, hc.covers_merge hw⟩

/-- What a loop starts with has been passed when it turns out to be no target. -/
theorem Placed.blames_target {x : Expr} (hc : c.Placed cs) (h : x.ReadAt c c')
    (he : x.toPattern = .error e) : c.Blames e c' := by
  obtain ⟨w, hw, -, -, -, hlaid⟩ := h.takes hc.ended
  have habout := x.about_of_toPattern he (Outline.laid_singleton.mp (hlaid cs hc))
  exact ⟨w, hw, habout.mono (List.prefix_append _ _).isInfix⟩

end Cursor

namespace Lockstep
variable {cs : List Char} {o : Cursor}

/-- One place that is read twice, where a fault is about what has been found since the place `o`. -/
def blaming (ho : o.Placed cs) : Lockstep :=
  { twice o with
    Err := fun e c e' d => e' = e ∧ d = c ∧ o.Blames e c
    fault := by
      rintro n m a s c d ⟨rfl, t⟩ f
      obtain ⟨w, hw, -⟩ := t.reached
      exact ⟨rfl, rfl, (Cursor.blames_fault f).before hw⟩
    importFault := by
      rintro n m a s c d ⟨rfl, t⟩ hk
      obtain ⟨w, hw, -⟩ := t.reached
      have hend : d.atEnd = false := by simp [Cursor.atEnd, hk]
      exact ⟨rfl, rfl, ((ho.moves hw).blames_import hend).before hw⟩ }

theorem targets_blaming (ho : o.Placed cs) {g : Grammar} (hg : g.Accounts) :
    (blaming ho).Targets g := by
  intro n b m a m' a' s s' c d c₁ d₁ x x' e e' t h t₁ hx he he'
  obtain rfl := hx
  obtain rfl : e = e' := Except.error.inj (he.symm.trans he')
  obtain ⟨rfl, t⟩ := t
  obtain ⟨w, hw, -⟩ := t.reached
  have hread := Grammar.Accounts.commaSequence hg.assignment h
  exact ⟨rfl, t₁.1, ((ho.moves hw).blames_target hread he).before hw⟩

end Lockstep

/-- Reading from a place ends at the same or a later one, and a fault is about tokens in between or
the one that comes next. -/
inductive Cursor.Fares (c : Cursor) {α : Type} : Result ParseError Cursor α → Prop where
  | ok {x : α} {c' : Cursor} {w : List Token} (moves : c.Moves w c') : Fares c (.ok x c')
  | error {e : ParseError} {c' : Cursor} (blames : c.Blames e c') : Fares c (.error e c')

/-- Wherever a module goes on, what reading an item blames has been found there. -/
theorem Cursor.Placed.fares_item {cs : List Char} {c : Cursor} (hc : c.Placed cs) (depth : Nat)
    (b : Bool) : c.Fares ((Grammar.nested depth).item b c) := by
  have hg := Lockstep.parts_self (fun j => Lockstep.targets_blaming hc (Grammar.accounts_nested j))
    (c.ahead.length + 1) depth
  have t : (Lockstep.blaming hc).At (c.ahead.length + 1) true true [] c c :=
    ⟨rfl, .start hc.ended⟩
  have h := hg.item (b := b) t fun h => h.loses
  generalize (Grammar.nested depth).item b c = r at h
  cases h with
  | ok _ t =>
    obtain ⟨w, hw, -⟩ := t.2.reached
    exact .ok hw
  | error h => exact .error h.2.2
  | lost h => exact h.elim

end ModuleBundler
