import ModuleBundler.Grammar.Function
import ModuleBundler.Proofs.Grammar.Place
import ModuleBundler.Proofs.Tree.Nesting
import ModuleBundler.Tree.Visit

/-! How the tokens that a reader passes account for what it reads: they open and close brackets
like a stack, each call of `require` with a fixed text has that text after a parenthesis among
them, in each template texts and expressions alternate, and the nodes stand among the tokens one
after the other. -/
namespace ModuleBundler
open Outline

/-! ## What is counted -/

/-- Texts and expressions of a template alternate, and a text comes first and last. -/
def ExprForm.alternates : ExprForm → Bool
  | .template texts exprs | .taggedTemplate _ texts exprs => texts.length == exprs.length + 1
  | _ => true

/-- The part is no template in which texts and expressions do not alternate. -/
def Visit.alternates : Visit → Bool
  | .expr e => e.form.alternates
  | _ => true

/-- The part is a call of `require` whose argument, a fixed text, has a given span. -/
def Visit.isCallAt (sp : Span) : Visit → Bool
  | .expr e =>
    match e.requireCall? with
    | some (.static _ span) => span = sp
    | _ => false
  | _ => false

/-- The number of calls of `require` with a fixed text at a span. -/
def callsAt (sp : Span) (visits : List Visit) : Nat := visits.countP (Visit.isCallAt sp)

/-- What is counted among the parts of something that is read. -/
inductive Tally where
  /-- The calls of `require` with a fixed text that has a given span. -/
  | calls (sp : Span)
  /-- The templates in which texts and expressions do not alternate. -/
  | uneven

namespace Tally

/-- The part is counted. -/
def picks : Tally → Visit → Bool
  | calls sp, v => v.isCallAt sp
  | uneven, v => !v.alternates

/-- The number of parts that are counted. -/
def count (T : Tally) (visits : List Visit) : Nat := visits.countP T.picks

/-- The number of tokens, after a given one, that account for parts that are counted. -/
def marked : Tally → Token → List Token → Nat
  | calls sp, previous, tokens => argumentsAt sp previous tokens
  | uneven, _, _ => 0

variable {T : Tally}

@[simp] theorem count_append (us vs : List Visit) :
    T.count (us ++ vs) = T.count us + T.count vs := List.countP_append

theorem marked_append (previous : Token) (u v : List Token) :
    T.marked previous (u ++ v) = T.marked previous u + T.marked (u.getLast?.getD previous) v := by
  cases T with
  | calls sp => exact argumentsAt_append sp previous u v
  | uneven => rfl

/-- Only expressions are counted. -/
theorem count_cons {v : Visit} (h : ∀ e, v ≠ .expr e) (vs : List Visit) :
    T.count (v :: vs) = T.count vs := by
  refine List.countP_cons_of_neg ?_
  cases v with
  | expr e => exact absurd rfl (h e)
  | _ => cases T <;> simp [picks, Visit.isCallAt, Visit.alternates]

end Tally

/-- The form is neither a call nor a template in which texts and expressions do not alternate. -/
def ExprForm.isPlain : ExprForm → Bool
  | .call .. => false
  | f => f.alternates

theorem Expr.requireCall?_static {e : Expr} {specifier : String} {sp : Span}
    (h : e.requireCall? = some (.static specifier sp)) :
    ∃ callee arg, e.form = .call false callee [arg] ∧ callee.identName? = some "require"
      ∧ arg.staticString? = some specifier ∧ arg.span = sp := by
  unfold requireCall? at h
  split at h
  · next callee args hf =>
    split at h
    · next hc =>
      split at h
      · next arg =>
        split at h
        · next text ht =>
          cases h
          exact ⟨callee, arg, hf, hc, ht, rfl⟩
        · cases h
      · cases h
    · cases h
  · cases h

theorem Visit.isCallAt_expr {e : Expr} {sp : Span} (h : Visit.isCallAt sp (.expr e) = true) :
    ∃ specifier, e.requireCall? = some (.static specifier sp) := by
  simp only [isCallAt] at h
  split at h
  · next specifier s hs =>
    obtain rfl : s = sp := by simpa using h
    exact ⟨specifier, hs⟩
  · cases h

namespace Tally
variable {T : Tally} {e : Expr}

/-- An expression of a plain form is not counted. -/
theorem count_plain (h : e.form.isPlain = true) (vs : List Visit) :
    T.count (.expr e :: vs) = T.count vs := by
  refine List.countP_cons_of_neg fun hp => ?_
  cases T with
  | calls sp =>
    obtain ⟨specifier, hs⟩ := Visit.isCallAt_expr hp
    obtain ⟨callee, arg, hf, -⟩ := Expr.requireCall?_static hs
    rw [hf] at h
    cases h
  | uneven =>
    have ha : e.form.alternates = true := by
      cases hf : e.form <;> simp_all [ExprForm.isPlain]
    simp [picks, Visit.alternates, ha] at hp

/-- In a fixed text there are no calls. -/
theorem count_calls_static {sp : Span} (h : e.staticString?.isSome) :
    (calls sp).count e.visits = 0 := by
  obtain ⟨span, form⟩ := e
  have plain {f : ExprForm} (hf : ∀ o callee args, f ≠ .call o callee args) :
      (calls sp).count (Expr.visits ⟨span, f⟩) = (calls sp).count f.visits := by
    refine List.countP_cons_of_neg fun hp => ?_
    obtain ⟨specifier, hs⟩ := Visit.isCallAt_expr hp
    obtain ⟨callee, arg, hc, -⟩ := Expr.requireCall?_static hs
    exact hf _ _ _ hc
  cases form with
  | string value => exact plain (by simp)
  | template texts exprs =>
    cases exprs with
    | nil => exact plain (by simp)
    | cons e es => simp [Expr.staticString?] at h
  | _ => simp [Expr.staticString?] at h

end Tally

/-! ## Spans between two places -/

namespace Cursor
variable {cs : List Char} {c c' : Cursor} {w : List Token} {a d : Span}

theorem Placed.tokensOrdered (hc : c.Placed cs) (h : c.Moves w c') : Token.Ordered w :=
  ⟨fun t ht => ((hc.passed h).1 t ht).1.ordered, (hc.passed h).2⟩

theorem Moves.covers (h : c.Moves w c') (hw : 0 < w.length) : (c.spanTo c').Covers w := by
  obtain ⟨u, hu⟩ := h.last hw
  constructor
  · cases w with
    | nil => cases hw
    | cons t w =>
      obtain ⟨ht, -⟩ := List.cons.inj h.tokens
      simp [spanTo, ht]
  · rw [hu]
    simp [spanTo]

theorem merge_eq_spanTo (ha : a.start = c.current.span.start)
    (hd : d.stop = c'.previous.span.stop) (ha' : a.In (c.spanTo c')) (hd' : d.In (c.spanTo c')) :
    a.merge d = c.spanTo c' := by
  have hstart : min a.start d.start = c.current.span.start := ha ▸ Nat.min_eq_left (ha ▸ hd'.1)
  have hstop : max a.stop d.stop = c'.previous.span.stop := hd ▸ Nat.max_eq_right (hd ▸ ha'.2)
  rw [Span.merge, hstart, hstop, spanTo]

end Cursor

/-! ## The account of what is read -/

/-- Reading from one place to another takes the open brackets from `s` to `s'`. Each of the `vs`
that is counted has a token that accounts for it, and the nodes `os` stand among the tokens, of
which there is at least one if `moves` says so. -/
def Reads (moves : Bool) (s : List Bracket) (c : Cursor) (vs : List Visit) (os : List Outline)
    (s' : List Bracket) (c' : Cursor) : Prop :=
  c.Ended → ∃ w, c.Moves w c' ∧ Bracket.run s w = some s' ∧ (moves = true → 0 < w.length) ∧
    (∀ T : Tally, T.count vs ≤ T.marked c.previous w) ∧ ∀ cs, c.Placed cs → Laid w os

/-- Reading from one place to another closes all brackets that it opens, and no others. -/
abbrev Takes (moves : Bool) (c : Cursor) (vs : List Visit) (os : List Outline) (c' : Cursor) :
    Prop :=
  Reads moves [] c vs os [] c'

/-- The node of what is read from one place to another covers all that is passed. -/
structure Fills (c : Cursor) (vs : List Visit) (o : Outline) (c' : Cursor) : Prop where
  takes : Takes true c vs [o] c'
  extent : ∀ cs, c.Placed cs → o.extent = c.spanTo c'

section Account
variable {m m' m₁ m₂ : Bool} {s s' s₁ s₂ : List Bracket} {c c' c₁ c₂ c₃ : Cursor}
  {us vs : List Visit} {o p : Outline} {os ps : List Outline} {cs : List Char} {a : Span}

namespace Reads

theorem moves (h : Reads m s c vs os s' c') (hc : c.Ended) :
    ∃ w, c.Moves w c' ∧ (m = true → 0 < w.length) := by
  obtain ⟨w, hw, -, hm, -⟩ := h hc
  exact ⟨w, hw, hm⟩

theorem ended (h : Reads m s c vs os s' c') (hc : c.Ended) : c'.Ended := by
  obtain ⟨w, hw, -⟩ := h hc
  exact hw.ended hc

theorem placed (h : Reads m s c vs os s' c') (hc : c.Placed cs) : c'.Placed cs := by
  obtain ⟨w, hw, -⟩ := h hc.ended
  exact hc.moves hw

theorem refl : Reads false s c [] [] s c :=
  fun _ => ⟨[], .refl c, rfl, by simp, fun _ => Nat.zero_le _, fun _ _ => .nil _⟩

theorem trans (h : Reads m s c us os s₁ c₁) (h' : Reads m' s₁ c₁ vs ps s₂ c₂) :
    Reads (m || m') s c (us ++ vs) (os ++ ps) s₂ c₂ := by
  intro hc
  obtain ⟨u, hu, hs, hm, hus, hos⟩ := h hc
  obtain ⟨v, hv, hs', hm', hvs, hps⟩ := h' (hu.ended hc)
  refine ⟨u ++ v, hu.trans hv, ?_, ?_, fun T => ?_, fun cs hp => ?_⟩
  · rw [Bracket.run_append, hs]
    exact hs'
  · simp only [Bool.or_eq_true, List.length_append]
    rintro (h | h)
    · exact Nat.add_pos_left (hm h) _
    · exact Nat.add_pos_right _ (hm' h)
  · rw [Tally.count_append, Tally.marked_append, ← hu.previous]
    exact Nat.add_le_add (hus T) (hvs T)
  · exact (hos cs hp).append (hp.tokensOrdered (hu.trans hv)) (hps cs (hp.moves hu))

/-- After what is read there may be tokens that are no part of it. -/
theorem past (h : Reads m s c vs os s₁ c₁) (h' : Reads m' s₁ c₁ [] [] s₂ c₂) :
    Reads (m || m') s c vs os s₂ c₂ := by
  simpa using h.trans h'

theorem mono (h : Reads m s c vs os s' c') (hv : ∀ T : Tally, T.count us ≤ T.count vs) :
    Reads m s c us os s' c' := by
  intro hc
  obtain ⟨w, hw, hs, hm, hvs, hos⟩ := h hc
  exact ⟨w, hw, hs, hm, fun T => Nat.le_trans (hv T) (hvs T), hos⟩

theorem visit {v : Visit} (h : Reads m s c vs os s' c') (hv : ∀ e, v ≠ .expr e) :
    Reads m s c (v :: vs) os s' c' :=
  h.mono fun _ => Nat.le_of_eq (Tally.count_cons hv vs)

/-- An expression of a plain form is not counted. -/
theorem plain {e : Expr} (h : Reads m s c vs os s' c') (hp : e.form.isPlain = true) :
    Reads m s c (.expr e :: vs) os s' c' :=
  h.mono fun _ => Nat.le_of_eq (Tally.count_plain hp vs)

theorem weaken (h : Reads m s c vs os s' c') : Reads false s c vs os s' c' := by
  intro hc
  obtain ⟨w, hw, hs, -, hr⟩ := h hc
  exact ⟨w, hw, hs, by simp, hr⟩

theorem refines (h : Reads m s c vs os s' c') (hr : Refines os ps) : Reads m s c vs ps s' c' := by
  intro hc
  obtain ⟨w, hw, hs, hm, hvs, hos⟩ := h hc
  exact ⟨w, hw, hs, hm, hvs, fun cs hp => (hr w (hp.tokensOrdered hw) (hos cs hp)).1⟩

/-- What closes all brackets that it opens can be read between brackets. -/
theorem within (h : Takes m c vs os c') : Reads m s c vs os s c' := by
  intro hc
  obtain ⟨w, hw, hs, hr⟩ := h hc
  exact ⟨w, hw, Bracket.run_outer hs s, hr⟩

theorem next (h : c.atEnd = false) (hs : Bracket.step s c.current.kind = some s') :
    Reads true s c [] [] s' c.next := fun hc =>
  ⟨[c.current], Cursor.moves_next hc h, by simpa using hs, by simp, fun _ => Nat.zero_le _,
    fun _ _ => .nil _⟩

theorem next_of_sees {kind : TokenKind} (h : c.sees kind = true)
    (hs : Bracket.step s kind = some s') : Reads true s c [] [] s' c.next := by
  refine next (Cursor.atEnd_of_sees h) ?_
  rw [Cursor.kind_of_sees h]
  exact hs

theorem next_of_seesWord {word : String} (h : c.seesWord word = true) :
    Reads true s c [] [] s c.next := by
  have hk := Cursor.kind_of_seesWord h
  refine next (by simp [Cursor.atEnd, hk]) ?_
  rw [hk]
  rfl

section Tokens
variable {kind : TokenKind} {b b' r : Bool} {t : Token} {u u' : Unit}

theorem consume (h : Parser.consume kind b c = .ok t c') (hs : Bracket.step s kind = some s') :
    Reads true s c [] [] s' c' := by
  obtain ⟨hk, -, rfl⟩ := Parser.consume_ok h
  exact next_of_sees hk hs

theorem consumeMark {mark : Punctuator} (h : Parser.consumeMark mark b c = .ok u c')
    (hs : Bracket.step s (.punct mark) = some s') : Reads true s c [] [] s' c' := by
  obtain ⟨hk, rfl⟩ := Parser.consumeMark_ok h
  exact next_of_sees hk hs

theorem consumeKeyword {word : Keyword} (h : Parser.consumeKeyword word b c = .ok u c') :
    Reads true s c [] [] s c' := by
  simp only [Parser.consumeKeyword, Parser.bind_ok, Parser.pure_ok] at h
  obtain ⟨t, _, h, -, rfl⟩ := h
  exact consume h rfl

theorem eat_true (h : Parser.eat kind b c = .ok true c')
    (hs : Bracket.step s kind = some s') : Reads true s c [] [] s' c' := by
  rcases Parser.eat_ok h with ⟨-, hk, rfl⟩ | ⟨hr, -⟩
  · exact next_of_sees hk hs
  · cases hr

theorem eat (h : Parser.eat kind b c = .ok r c') (hk : Bracket.Neutral kind) :
    Reads false s c [] [] s c' := by
  rcases Parser.eat_ok h with ⟨-, hs, rfl⟩ | ⟨-, -, rfl⟩
  · exact (next_of_sees hs (hk s)).weaken
  · exact refl

theorem eatWord {word : String} (h : Parser.eatWord word b c = .ok r c') :
    Reads false s c [] [] s c' := by
  rcases Parser.eatWord_ok h with ⟨-, hs, rfl⟩ | ⟨-, -, rfl⟩
  · exact (next_of_seesWord hs).weaken
  · exact refl

/-- What stands between an opening mark and the mark that closes it. -/
theorem between {x : Bracket} {first last : Punctuator}
    (h : Parser.consumeMark first b c = .ok u c₁)
    (hs : Bracket.step [] (.punct first) = some [x]) (hr : Takes m c₁ vs os c₂)
    (h' : Parser.consumeMark last b' c₂ = .ok u' c')
    (hs' : Bracket.step [x] (.punct last) = some []) : Takes true c vs os c' :=
  (consumeMark h hs).trans (hr.within.past (consumeMark h' hs'))

end Tokens

/-- A key and the value that it stands for are read from the same place. -/
theorem shorthand {key : Span} (h : Takes m c us [.node key []] c₁) (h' : Takes m₁ c₁ vs ps c')
    {ws : List Visit} (hv : Takes m₂ c ws [o] c') : Takes m₂ c ws [.shorthand key o] c' := by
  intro hc
  obtain ⟨u, hu, -, -, -, hkey⟩ := h hc
  obtain ⟨v, hv', -⟩ := h' (hu.ended hc)
  obtain ⟨w, hw, hs, hm, hws, hvalue⟩ := hv hc
  obtain rfl := hw.unique (hu.trans hv')
  refine ⟨u ++ v, hw, hs, hm, hws, fun cs hp => ?_⟩
  refine laid_singleton.mpr (.shorthand ?_ (laid_singleton.mp (hvalue cs hp)))
  exact (laid_singleton.mp (hkey cs hp)).mono (List.prefix_append u v).isInfix

/-- What is read, and the tokens at both ends of it, are inside of the span of it all. -/
theorem inside (h : Reads true s c vs os s' c') (hc : c.Placed cs) :
    (∀ o ∈ os, o.extent.In (c.spanTo c')) ∧ c.current.span.In (c.spanTo c') ∧
      c'.previous.span.In (c.spanTo c') := by
  obtain ⟨w, hw, -, hm, -, hos⟩ := h hc.ended
  have hcovers := hw.covers (hm rfl)
  have hordered := hc.tokensOrdered hw
  obtain ⟨u, hu⟩ := hw.last (hm rfl)
  exact ⟨fun o ho => ((hos cs hc).nested o ho).extent_in hordered hcovers,
    hordered.in_of_covers hcovers (hw.head (hm rfl)),
    hordered.in_of_covers hcovers (by simp [hu])⟩

/-- Around what is read there is a node with a span that covers it. -/
theorem fills_of_eq (h : Takes true c vs os c') (ha : ∀ cs, c.Placed cs → a = c.spanTo c') :
    Fills c vs (.node a os) c' := by
  refine ⟨fun hc => ?_, ha⟩
  obtain ⟨w, hw, hs, hm, hvs, hos⟩ := h hc
  refine ⟨w, hw, hs, hm, hvs, fun cs hp => ?_⟩
  rw [ha cs hp]
  exact laid_singleton.mpr ((hos cs hp).node (hw.covers (hm rfl)))

theorem fills (h : Takes true c vs os c') :
    Fills c vs (.node (c.current.span.merge c'.previous.span) os) c' := by
  refine h.fills_of_eq fun cs hc => ?_
  obtain ⟨-, hfirst, hlast⟩ := h.inside hc
  exact Cursor.merge_eq_spanTo rfl rfl hfirst hlast

end Reads

namespace Fills

theorem mono (h : Fills c vs o c') (hv : ∀ T : Tally, T.count us ≤ T.count vs) :
    Fills c us o c' := ⟨h.takes.mono hv, h.extent⟩

theorem visit {v : Visit} (h : Fills c vs o c') (hv : ∀ e, v ≠ .expr e) :
    Fills c (v :: vs) o c' := ⟨h.takes.visit hv, h.extent⟩

theorem plain {e : Expr} (h : Fills c vs o c') (hp : e.form.isPlain = true) :
    Fills c (.expr e :: vs) o c' := ⟨h.takes.plain hp, h.extent⟩

/-- The token that is read at a place. -/
theorem token (h : c.atEnd = false) (hk : Bracket.Neutral c.current.kind) :
    Fills c [] (.node c.current.span []) c.next := by
  refine (Reads.next h (hk [])).fills_of_eq fun cs hc => ?_
  rw [Cursor.spanTo, Cursor.previous_next hc.ended h]

theorem token_next (h : c.atEnd = false) (hk : Bracket.Neutral c.current.kind) :
    Fills c [] (.node c.next.previous.span []) c.next := by
  refine (Reads.next h (hk [])).fills_of_eq fun cs hc => ?_
  rw [Cursor.spanTo, Cursor.previous_next hc.ended h]

/-- What is read to a place goes on. -/
theorem extend (h : Fills c us o c₁) (h' : Takes m c₁ vs ps c₂) :
    Fills c (us ++ vs) (.node (o.extent.merge c₂.previous.span) (o :: ps)) c₂ := by
  have hall : Takes true c (us ++ vs) (o :: ps) c₂ := h.takes.trans h'
  refine hall.fills_of_eq fun cs hc => ?_
  obtain ⟨hin, -, hlast⟩ := hall.inside hc
  exact Cursor.merge_eq_spanTo (by rw [h.extent cs hc]; rfl) rfl (hin o List.mem_cons_self) hlast

/-- Between two parts there may be tokens. -/
theorem merge (h : Fills c us o c₁) (h' : Takes m c₁ [] [] c₂) (h'' : Fills c₂ vs p c₃) :
    Fills c (us ++ vs) (.node (o.extent.merge p.extent) [o, p]) c₃ := by
  have hall : Takes true c (us ++ vs) [o, p] c₃ := h.takes.trans (h'.trans h''.takes)
  refine hall.fills_of_eq fun cs hc => ?_
  obtain ⟨hin, -, -⟩ := hall.inside hc
  have hstop := h''.extent cs (h'.placed (h.takes.placed hc))
  exact Cursor.merge_eq_spanTo (by rw [h.extent cs hc]; rfl) (by rw [hstop]; rfl)
    (hin o (by simp)) (hin p (by simp))

/-- A part with tokens before it. -/
theorem after (h : Takes m c [] [] c₁) (h' : Fills c₁ vs o c₂) :
    Fills c vs (.node (c.current.span.merge o.extent) [o]) c₂ := by
  have hall : Takes true c vs [o] c₂ := by simpa using h.trans h'.takes
  refine hall.fills_of_eq fun cs hc => ?_
  obtain ⟨hin, hfirst, -⟩ := hall.inside hc
  have hstop := h'.extent cs (h.placed hc)
  exact Cursor.merge_eq_spanTo rfl (by rw [hstop]; rfl) hfirst (hin o (by simp))

end Fills
end Account
end ModuleBundler
