import ModuleBundler.Proofs.Grammar.Depth
import ModuleBundler.Proofs.Tree.StandsFor

/-! Reading the same tokens as a pattern and as an expression. If no property that stands for its
own name has a default, the expression stands for the pattern, up to spans; else the tokens cannot
be read as an expression. -/
namespace ModuleBundler
open EStateM (Result)

variable {o : Cursor} {n : Nat} {α β : Type} {b : Bool} {c c' c₁ c₂ : Cursor} {g : Grammar}

namespace Grammar
open ModuleBundler.Parser

theorem spreadOrAssignment_of_dots (h : c.seesMark .dotDotDot = true) :
    g.spreadOrAssignment b c
      = ((fun e => ⟨c.current.span.merge e.span, .spread e⟩) <$> g.assignment) b c.next := by
  rw [spreadOrAssignment, bind_of_ok (here_ok.mpr ⟨rfl, rfl⟩), eatMark,
    bind_of_ok (eat_of_sees h), ← bind_pure_comp]
  rfl

theorem spreadOrAssignment_of_no_dots (h : c.seesMark .dotDotDot = false) :
    g.spreadOrAssignment b c = g.assignment b c := by
  rw [spreadOrAssignment, bind_of_ok (here_ok.mpr ⟨rfl, rfl⟩), eatMark,
    bind_of_ok (eat_of_not_sees h)]
  rfl

end Grammar

/-! ## Outcomes that mirror what has been read -/

/-- Reading succeeds up to a place with something that is right if a condition holds, and fails if
it does not. -/
inductive Mirrored (plain : Prop) (right : β → Prop) (c : Cursor) :
    Result ParseError Cursor β → Prop where
  | ok {y : β} : plain → right y → Mirrored plain right c (.ok y c)
  | error {e : ParseError} {d : Cursor} : ¬ plain → Mirrored plain right c (.error e d)

namespace Mirrored
open ModuleBundler.Parser

variable {P P' : Prop} {R : α → Prop} {R' : β → Prop} {p : Parser α} {f : α → Parser β}

theorem pure {x : α} (hp : P) (hx : R x) : Mirrored P R c ((pure x : Parser α) b c) := .ok hp hx

theorem of_fails {r : Result ParseError Cursor α} (hp : ¬ P) (h : ∀ x d, r ≠ .ok x d) :
    Mirrored P R c r := by
  cases r with
  | ok x d => exact (h x d rfl).elim
  | error e d => exact .error hp

/-- A reader goes first whose condition is part of the condition of all. -/
theorem bind (hp : Mirrored P R c₁ (p b c)) (hP : P' → P)
    (hf : ∀ {x}, P → R x → Mirrored P' R' c' (f x b c₁)) :
    Mirrored P' R' c' ((p >>= f) b c) := by
  rw [bind_apply]
  generalize p b c = r at hp
  cases hp with
  | ok h hx => exact hf h hx
  | error h => exact .error fun h' => h (hP h')

theorem congr {r : Result ParseError Cursor α} (h : Mirrored P R c r) (hP : P ↔ P') :
    Mirrored P' R c r := by
  cases h with
  | ok h hx => exact .ok (hP.mp h) hx
  | error h => exact .error (mt hP.mpr h)

theorem skip {x : α} (h : p b c = .ok x c₁) (hf : Mirrored P R' c' (f x b c₁)) :
    Mirrored P R' c' ((p >>= f) b c) := by
  rw [bind_of_ok h]
  exact hf

theorem map {k : α → β} (hp : Mirrored P R c' (p b c)) (hk : ∀ x, R x → R' (k x)) :
    Mirrored P R' c' ((k <$> p) b c) := by
  rw [← bind_pure_comp]
  exact hp.bind id fun h hx => .pure h (hk _ hx)

/-- One more item of a literal, with those after it. -/
theorem manyUntil_cons {close : Punctuator} {item' : Parser β} {Q Q' : Prop} {d : Cursor}
    {R : β → Prop} {S S' : List β → Prop} (hc : c.seesMark close = false) (hat : c.atEnd = false)
    (hl : d.ahead.length < c.ahead.length) (hi : Mirrored Q R d (item' b c))
    (hm : Mirrored Q' S c₂ (Parser.manyUntil close item' b d))
    (hS : ∀ y ys, R y → S ys → S' (y :: ys)) :
    Mirrored (Q ∧ Q') S' c₂ (Parser.manyUntil close item' b c) := by
  rw [Parser.manyUntil, many_eq, hc, hat]
  simp only [Bool.not_false, Bool.and_self, if_true]
  generalize item' b c = r at hi
  cases hi with
  | error h => exact .error fun hq => h hq.1
  | ok hq hy =>
    dsimp only
    rw [if_pos hl, map_apply]
    rw [Parser.manyUntil] at hm
    generalize many (fun c => !c.seesMark close && !c.atEnd) item' b d = r at hm
    cases hm with
    | error h => exact .error fun hq => h hq.2
    | ok hq' hys => exact .ok ⟨hq, hq'⟩ (hS _ _ hy hys)

/-- The parts of a pattern, perhaps with a rest behind them, are mirrored by the parts of a literal
if each of them is. -/
theorem manyUntil {close : Punctuator} {item : Parser α} {rest : Parser Pattern}
    {item' : Parser β} {plain : α → Prop} {part : β → α → Prop} {spread : β → Pattern → Prop}
    (items : ∀ {c x c'}, c.Room o n → c.seesMark .dotDotDot = false → item b c = .ok x c' →
      c'.Room c c.ahead.length ∧ Mirrored (plain x) (part · x) c' (item' b c))
    (rests : ∀ {c p c'}, c.Room o n → c.seesMark .dotDotDot = true → rest b c.next = .ok p c' →
      c'.seesMark close = true →
      c'.Room c c.ahead.length ∧ Mirrored p.Plain (spread · p) c' (item' b c))
    (hclose : close ≠ .dotDotDot) {xs : List α} {r : Option Pattern} (t : c.Room o n)
    (hxs : many (Grammar.partsGoOn close) item b c = .ok xs c₁)
    (hr : Parser.after (.punct .dotDotDot) rest b c₁ = .ok r c₂)
    (hend : c₂.seesMark close = true) :
    Mirrored ((∀ x ∈ xs, plain x) ∧ ∀ p, r = some p → p.Plain)
      (fun ys => PartsFor part spread ys xs r) c₂ (Parser.manyUntil close item' b c) := by
  have stop : many (fun c => !c.seesMark close && !c.atEnd) item' b c₂ = .ok [] c₂ := by
    rw [many_eq, hend]
    rfl
  have dots {c : Cursor} (hs : c.seesMark .dotDotDot = true) : c.seesMark close = false := by
    rw [Cursor.seesMark, Cursor.sees, Cursor.kind_of_sees hs, Bool.and_eq_false_iff]
    exact .inr (beq_eq_false_iff_ne.mpr fun h => hclose (TokenKind.punct.inj h).symm)
  induction hl : c.ahead.length using Nat.strongRecOn generalizing c xs with
  | ind l ih =>
    subst hl
    rw [many_eq] at hxs
    split at hxs
    · next hgo =>
      simp only [Grammar.partsGoOn, Bool.and_eq_true, Bool.not_eq_true'] at hgo
      obtain ⟨⟨hc, hat⟩, hdots⟩ := hgo
      cases hx : item b c with
      | error e d =>
        rw [hx] at hxs
        cases hxs
      | ok x d =>
        obtain ⟨hd, hi⟩ := items t hdots hx
        rw [hx] at hxs
        dsimp only at hxs
        rw [if_pos hd.ahead] at hxs
        obtain ⟨xs', hxs', rfl⟩ := map_ok.mp hxs
        have hm := ih _ hd.ahead (t.within hd) hxs' rfl
        refine (manyUntil_cons hc hat hd.ahead hi hm fun _ _ => .cons).congr ?_
        simp only [List.forall_mem_cons, and_assoc]
    · cases hxs
      rcases after_ok hr with ⟨d, p, he, hp, rfl⟩ | ⟨rfl, rfl⟩
      · rcases eat_ok he with ⟨-, hs, rfl⟩ | ⟨he, -⟩
        · obtain ⟨hd, hi⟩ := rests t hs hp hend
          have hm : Mirrored True (· = []) c₂ (Parser.manyUntil close item' b c₂) := by
            rw [Parser.manyUntil, stop]
            exact .ok trivial rfl
          refine (manyUntil_cons (dots hs) (Cursor.atEnd_of_sees hs) hd.ahead hi hm ?_).congr
            (by simp)
          rintro y _ hy rfl
          exact .rest hy
        · cases he
      · rw [Parser.manyUntil, stop]
        exact .ok (by simp) .nil

end Mirrored

/-- With this token a pattern inside of another one, or its default, goes on or ends. -/
def TokenKind.endsTarget : TokenKind → Bool
  | .punct .eq | .punct .comma | .punct .rBracket | .punct .rBrace => true
  | _ => false

/-- With this token the key of a property in a pattern ends. -/
def TokenKind.endsKey : TokenKind → Bool
  | .punct .colon | .punct .eq | .punct .comma | .punct .rBrace => true
  | _ => false

namespace Grammar
open ModuleBundler.Parser

/-! ## One pattern -/

/-- What is read as a pattern is mirrored by what is read as an expression without operators. -/
def Mirrors (n : Nat) (g : Grammar) : Prop :=
  ∀ {b : Bool} {o c c' : Cursor} {p : Pattern}, c.Room o n → g.pattern b c = .ok p c' →
    (c.current.kind = .identifier → c'.current.kind.endsTarget = true) →
    Mirrored p.Plain (·.StandsFor p) c' (g.primary b c)

theorem pattern_starts {p : Pattern} (h : g.readPattern b c = .ok p c') :
    c.current.kind = .punct .lBracket ∨ c.current.kind = .punct .lBrace ∨
      c.current.kind = .identifier := by
  simp only [Grammar.readPattern, Grammar.patternForm, bind_ok, here_ok, get_ok] at h
  obtain ⟨_, _, ⟨-, rfl⟩, _, _, ⟨_, _, ⟨rfl, rfl⟩, h⟩, -⟩ := h
  generalize c.current.kind = kind at h ⊢
  split at h
  · exact .inl rfl
  · exact .inr (.inl rfl)
  · exact .inr (.inr rfl)
  · exact (unexpected_ok h).elim

theorem operand_of_starts (h : c.current.kind = .punct .lBracket ∨ c.current.kind = .punct .lBrace ∨
    c.current.kind = .identifier) : g.operand b c = g.primaryExpression b c := by
  obtain ⟨previous, ⟨kind, span, value, newline⟩, ahead⟩ := c
  obtain rfl | rfl | rfl : kind = _ ∨ kind = _ ∨ kind = _ := h
  all_goals rfl

/-- A pattern with its default is mirrored by an expression, in which the default is assigned. -/
theorem assignment_mirrored {k : Nat} (hk : n ≤ k) (hg : (nested k).Mirrors n) {p : Pattern}
    (t : c.Room o n) (h : (nested k).patternWithDefault b c = .ok p c')
    (hstop : goesOn b 1 c' = false)
    (hname : c.current.kind = .identifier → c'.current.kind.endsTarget = true) :
    Mirrored p.Plain (·.StandsFor p) c' ((nested k).assignment b c) := by
  obtain ⟨m, rfl⟩ : ∃ m, n = m + 1 := Nat.exists_eq_succ_of_ne_zero (Nat.ne_zero_of_lt t.ahead)
  obtain ⟨k, rfl⟩ : ∃ k', k = k' + 1 := Nat.exists_eq_succ_of_ne_zero (Nat.ne_zero_of_lt hk)
  have stops {e : Expr} : iterate (goesOn b 1) (nested k).extend e b c' = .ok e c' :=
    iterate_stop hstop
  simp only [Grammar.patternWithDefault, Grammar.defaultFor, bind_ok, if_apply] at h
  obtain ⟨p₀, d, hp, r, d', he, h⟩ := h
  have hp' : (nested k).readPattern b c = .ok p₀ d := hp
  have hassign : (nested (k + 1)).assignment b c = ((nested k).primaryExpression >>= fun e =>
      iterate (goesOn b 1) (nested k).extend e) b c := by
    rw [bind_apply, ← operand_of_starts (pattern_starts hp'), ← bind_apply]
    rfl
  rw [hassign]
  rcases eat_ok he with ⟨rfl, hs, rfl⟩ | ⟨rfl, -, rfl⟩
  · simp only [if_true, bind_ok, pure_ok] at h
    obtain ⟨v, c₁, hv, rfl, rfl⟩ := h
    have hkind := Cursor.kind_of_sees hs
    have td : d.Room o m := by
      have h := ((accounts_nested (k + 1)).pattern hp).takes.room t.ended
      exact ⟨h.ended, t.reached.trans h.reached,
        Nat.lt_of_lt_of_le h.ahead (Nat.le_of_lt_succ t.ahead)⟩
    have tn : d.next.Room o m := td.outer.next (Cursor.atEnd_of_sees hs)
    have hsame : (nested (k + 1)).assignment b d.next = (nested k).assignment b d.next :=
      ((same_nested (by omega) (by omega) o).assignment (tn.moved [])).alone.eq
    have hcont : Continuation.ofToken? d.current.kind = some (.assignment .assign) := by
      rw [hkind]
      rfl
    have hgo : goesOn b 1 d = true := by
      rw [goesOn, Token.precedence, hkind]
      rfl
    have hextend {e : Expr} : (nested k).extend e b d
        = .ok ⟨e.span.merge c₁.previous.span, .assignment .assign e v⟩ c₁ := by
      have hform : (nested k).continueWith e (d.current.precedence b) (.assignment .assign) b d
          = .ok (.assignment .assign e v) c₁ := by
        rw [continueWith, bind_of_ok (advance_ok.mpr ⟨rfl, rfl⟩), bind_of_ok (hsame ▸ hv)]
        rfl
      rw [extend_apply, hcont, Option.elim_some, bind_of_ok hform]
      rfl
    have hl : c₁.ahead.length < d.ahead.length := by
      have h := (((accounts_nested (k + 1)).assignment hv).takes.room tn.ended).ahead
      rw [Cursor.next_ahead_length _ (Cursor.atEnd_of_sees hs)] at h
      omega
    refine (hg t hp fun _ => by rw [hkind]; rfl).bind Pattern.plain_withDefault.mp fun hpl he => ?_
    rw [Parser.iterate.eq_def, if_pos hgo, hextend]
    dsimp only
    rw [if_pos hl, stops]
    exact .ok (.withDefault hpl) he.withDefault
  · obtain ⟨rfl, rfl⟩ := pure_ok.mp h
    refine (hg t hp hname).bind id fun hpl he => ?_
    rw [stops]
    exact .ok hpl he

/-! ## Arrays -/

/-- An element of an array literal with the comma after it, or a hole with its comma. -/
def arrayElement (g : Grammar) : Parser (Option Expr) := do
  if ← eatMark .comma then return none
  let element ← g.spreadOrAssignment
  separator .rBracket
  return some element

theorem ends_of_sees {mark : Punctuator} (h : c.seesMark mark = true)
    (hm : mark = .comma ∨ mark = .rBracket ∨ mark = .rBrace) :
    goesOn b 1 c = false ∧ c.current.kind.endsTarget = true := by
  have hk := Cursor.kind_of_sees h
  obtain rfl | rfl | rfl := hm
  all_goals
    rw [goesOn, Token.precedence, hk]
    exact ⟨rfl, rfl⟩

theorem separator_ok {close : Punctuator} {u : Unit} (h : separator close b c = .ok u c') :
    c.seesMark .comma = true ∨ c.seesMark close = true := by
  simp only [separator, bind_ok, get_ok, if_apply] at h
  obtain ⟨_, _, ⟨rfl, rfl⟩, h⟩ := h
  split at h
  · exact .inl (consumeMark_ok h).1
  · next hs => exact .inr (by simpa using hs)

theorem ends_of_separator {close : Punctuator} {u : Unit} (hm : close = .rBracket ∨ close = .rBrace)
    (h : separator close b c = .ok u c') :
    goesOn b 1 c = false ∧ c.current.kind.endsTarget = true := by
  rcases separator_ok h with hs | hs
  · exact ends_of_sees hs (.inl rfl)
  · exact ends_of_sees hs (.inr hm)

variable {k : Nat}

/-- A pattern without a default, as a rest is or the target of a loop, is mirrored. -/
theorem pattern_mirrored (hk : n ≤ k) (hg : (nested k).Mirrors n) {p : Pattern} (t : c.Room o n)
    (h : (nested k).pattern b c = .ok p c') (hstop : goesOn b 1 c' = false)
    (hname : c.current.kind = .identifier → c'.current.kind.endsTarget = true) :
    Mirrored p.Plain (·.StandsFor p) c' ((nested k).assignment b c) := by
  have he : c'.sees (.punct .eq) = false := by
    rw [Bool.eq_false_iff]
    intro hs
    rw [goesOn, Token.precedence, Cursor.kind_of_sees hs] at hstop
    cases hstop
  have hd : (nested k).patternWithDefault b c = .ok p c' := by
    rw [patternWithDefault, bind_of_ok h, defaultFor, eatMark, bind_of_ok (eat_of_not_sees he)]
    rfl
  exact assignment_mirrored hk hg t hd hstop hname

theorem arrayPosition_mirrored (hk : n ≤ k) (hg : (nested k).Mirrors n) {x : Option Pattern}
    (t : c.Room o n) (hdots : c.seesMark .dotDotDot = false)
    (h : (nested k).arrayPosition b c = .ok x c') :
    c'.Room c c.ahead.length ∧ Mirrored (∀ p, x = some p → p.Plain)
      (fun y => Option.Rel Expr.StandsFor y x) c' ((nested k).arrayElement b c) := by
  simp only [arrayPosition, bind_ok, if_apply] at h
  obtain ⟨r, d, he, h⟩ := h
  rcases eat_ok he with ⟨rfl, hs, rfl⟩ | ⟨rfl, hs, rfl⟩
  · obtain ⟨rfl, rfl⟩ := pure_ok.mp h
    refine ⟨Cursor.room_next t.ended (Cursor.atEnd_of_sees hs), ?_⟩
    exact .skip (eat_of_sees hs) (.pure (by simp) .none)
  · simp only [Bool.false_eq_true, if_false, bind_ok, pure_ok] at h
    obtain ⟨p, d', hp, _, _, hsep, rfl, rfl⟩ := h
    have td := ((accounts_nested k).patternWithDefault hp).takes.room t.ended
    have td' : Same _ _ (separator .rBracket b d') _ := td.separator
    rw [hsep] at td'
    obtain ⟨hstop, hends⟩ := ends_of_separator (.inl rfl) hsep
    have hassign : Mirrored p.Plain (·.StandsFor p) d' ((nested k).spreadOrAssignment b d) := by
      rw [spreadOrAssignment_of_no_dots hdots]
      exact assignment_mirrored hk hg t hp hstop fun _ => hends
    refine ⟨td'.room, .skip (eat_of_not_sees hs) (hassign.bind (fun h => h p rfl) ?_)⟩
    refine fun hpl he => .skip hsep (.pure ?_ (.some he))
    rintro _ ⟨⟩
    exact hpl

theorem arrayRest_mirrored (hk : n ≤ k) (hg : (nested k).Mirrors n) {p : Pattern} (t : c.Room o n)
    (hs : c.seesMark .dotDotDot = true) (hp : (nested k).pattern b c.next = .ok p c')
    (hend : c'.seesMark .rBracket = true) :
    c'.Room c c.ahead.length ∧
      Mirrored p.Plain (SpreadsElement · p) c' ((nested k).arrayElement b c) := by
  have tn := Cursor.room_next t.ended (Cursor.atEnd_of_sees hs)
  have hcomma : c.sees (.punct .comma) = false := by
    rw [Cursor.sees, Cursor.kind_of_sees hs]
    exact Bool.and_false _
  have hspread : Mirrored p.Plain (fun e => ∃ s e', e = ⟨s, .spread e'⟩ ∧ e'.StandsFor p) c'
      ((nested k).spreadOrAssignment b c) := by
    rw [spreadOrAssignment_of_dots hs]
    obtain ⟨hstop, hends⟩ := ends_of_sees (b := b) hend (.inr (.inl rfl))
    exact (pattern_mirrored hk hg (t.within tn) hp hstop fun _ => hends).map
      fun e he => ⟨_, e, rfl, he⟩
  refine ⟨tn.within (((accounts_nested k).pattern hp).takes.room tn.ended), ?_⟩
  refine .skip (eat_of_not_sees hcomma) (hspread.bind id fun hpl he => ?_)
  obtain ⟨s, e', rfl, he⟩ := he
  exact .skip (separator_of_sees hend) (.pure hpl ⟨s, e', rfl, he⟩)

theorem arrayLiteral_mirrored (hk : n ≤ k) (hg : (nested k).Mirrors n) {f : PatternForm}
    {span : Span} (t : c.Room o (n + 1)) (h : (nested k).arrayPattern b c = .ok f c') :
    Mirrored (Pattern.Plain ⟨span, f⟩) (fun form => ∀ s, Expr.StandsFor ⟨s, form⟩ ⟨span, f⟩) c'
      ((nested k).arrayLiteral b c) := by
  simp only [arrayPattern, bind_ok, pure_ok] at h
  obtain ⟨_, _, h₁, ps, d, h₂, r, d', h₃, _, _, h₄, rfl, rfl⟩ := h
  obtain ⟨hs₁, rfl⟩ := consumeMark_ok h₁
  obtain ⟨hs₄, rfl⟩ := consumeMark_ok h₄
  have tn : c.next.Room o n := t.next (Cursor.atEnd_of_sees hs₁)
  have helements : Mirrored _ _ d' (Parser.manyUntil .rBracket (nested k).arrayElement b c.next) :=
    .manyUntil (arrayPosition_mirrored hk hg) (arrayRest_mirrored hk hg) (by decide) tn h₂ h₃ hs₄
  refine .skip (consumeMark_of_sees hs₁) (helements.bind ?_ fun hpl hes => ?_)
  · rw [Pattern.plain_array]
    exact fun h => ⟨fun p hp q hq => h.1 q (hq ▸ hp), h.2⟩
  · refine .skip (consumeMark_of_sees hs₄) (.pure ?_ fun s => .array hes)
    exact Pattern.plain_array.mpr ⟨fun p hp => hpl.1 _ hp p rfl, hpl.2⟩

/-! ## Objects -/

/-- A member of an object literal, with the comma after it. -/
def memberInList (g : Grammar) : Parser ObjectMember := do
  let m ← g.objectMember
  separator .rBrace
  return m

theorem secondKind?_eq (hc : c.Ended) (h : c.atEnd = false) :
    c.secondKind? = some c.next.current.kind := by
  obtain ⟨previous, current, ahead⟩ := c
  cases ahead with
  | nil => simp_all [Cursor.Ended, Cursor.atEnd]
  | cons t ts => simp [Cursor.secondKind?, Cursor.next, h]

theorem propertyKey_word {key : PropertyKey} {word : String} (h : g.propertyKey b c = .ok key c')
    (hs : c.seesWord word = true) : c' = c.next := by
  simp only [Grammar.propertyKey, bind_ok, get_ok] at h
  obtain ⟨_, _, ⟨rfl, rfl⟩, h⟩ := h
  rw [Cursor.kind_of_seesWord hs] at h
  simp only [propertyName, bind_ok, get_ok, if_apply, pure_ok] at h
  obtain ⟨_, _, ⟨_, _, ⟨rfl, rfl⟩, h⟩, -, rfl⟩ := h
  split at h
  · simp only [bind_ok, advance_ok, pure_ok] at h
    obtain ⟨_, _, ⟨-, rfl⟩, -, rfl⟩ := h
    rfl
  · exact (unexpected_ok h).elim

theorem propertyKey_not_star {key : PropertyKey} (h : g.propertyKey b c = .ok key c') :
    c.seesMark .star = false := by
  simp only [Grammar.propertyKey, bind_ok, get_ok] at h
  obtain ⟨_, _, ⟨rfl, rfl⟩, h⟩ := h
  rw [Bool.eq_false_iff]
  intro hs
  rw [Cursor.kind_of_sees hs] at h
  simp only [propertyName, bind_ok, get_ok, if_apply, pure_ok] at h
  obtain ⟨_, _, ⟨_, _, ⟨rfl, rfl⟩, h⟩, -⟩ := h
  rw [Cursor.kind_of_sees hs, if_neg (by decide)] at h
  exact unexpected_ok h

/-- The key of a pattern has no modifiers. -/
theorem modifiers_of_key {key : PropertyKey} (hc : c.Ended) (h : g.propertyKey b c = .ok key c')
    (hends : c'.current.kind.endsKey = true) :
    modifiers b c = .ok ⟨.method, false, false⟩ c := by
  have hword {word : String} (hs : c.seesWord word = true) : c.modifierApplies = false := by
    rw [Cursor.modifierApplies, secondKind?_eq hc (Cursor.atEnd_of_seesWord hs),
      ← propertyKey_word h hs]
    generalize c'.current.kind = kind at hends
    unfold TokenKind.endsKey at hends
    split at hends
    iterate 4 rfl
    cases hends
  have hmodifier (word : String) : modifier word b c = .ok false c := by
    rw [modifier, bind_of_ok (get_ok.mpr ⟨rfl, rfl⟩), bind_of_ok (get_ok.mpr ⟨rfl, rfl⟩), if_neg]
    · rfl
    · rw [Bool.and_eq_true]
      rintro ⟨hs, ha⟩
      rw [hword hs] at ha
      cases ha
  have hasync : asyncModifier b c = .ok false c := by
    rw [asyncModifier, bind_of_ok (get_ok.mpr ⟨rfl, rfl⟩)]
    split
    · rfl
    · exact hmodifier "async"
  rw [modifiers, bind_of_ok hasync, eatMark, bind_of_ok (eat_of_not_sees (propertyKey_not_star h))]
  simp only [Bool.or_self, Bool.false_eq_true, if_false]
  rw [bind_of_ok (hmodifier "get"), if_neg (by decide), bind_of_ok (hmodifier "set")]
  rfl

/-- What follows the key of a pattern in an object literal. -/
theorem objectMember_of_key {key : PropertyKey} (hc : c.Ended)
    (hdots : c.seesMark .dotDotDot = false) (h : g.propertyKey b c = .ok key c')
    (hends : c'.current.kind.endsKey = true) :
    g.objectMember b c = (do
      if ← eatMark .colon then
        return .property key (← g.assignment) false
      else
        match key with
        | .name ident => return .property key ⟨ident.span, .ident ident.name⟩ true
        | _ => fail .propertyShorthand : Parser ObjectMember) b c' := by
  have hparen : c'.seesMark .lParen = false := by
    rw [Bool.eq_false_iff]
    intro hs
    rw [Cursor.kind_of_sees hs] at hends
    cases hends
  have happly (p q : Parser ObjectMember) :
      (do if (← get).seesMark .lParen then p else q : Parser ObjectMember) b c' = q b c' := by
    rw [bind_of_ok (get_ok.mpr ⟨rfl, rfl⟩), hparen]
    rfl
  rw [objectMember, eatMark, bind_of_ok (eat_of_not_sees hdots)]
  change g.propertyOrMethod b c = _
  rw [propertyOrMethod, bind_of_ok (modifiers_of_key hc h hends), bind_of_ok h, happly]
  rfl

theorem key_of_shorthandName? {key : PropertyKey} {i : Ident} (h : shorthandName? key = some i) :
    key = .name i := by
  unfold shorthandName? at h
  split at h
  · split at h
    · cases h
    · cases h
      rfl
  · cases h

/-- A property is mirrored by a member. If it stands for its own name, the equals sign of its
default is not read in an object literal, and neither is anything after it. -/
theorem patternProperty_mirrored (hk : n ≤ k) (hg : (nested k).Mirrors n) {q : PatternProperty}
    (t : c.Room o n) (hdots : c.seesMark .dotDotDot = false)
    (h : (nested k).patternProperty b c = .ok q c') :
    c'.Room c c.ahead.length ∧
      Mirrored q.Plain (fun m => m.StandsFor q) c' ((nested k).memberInList b c) := by
  refine ⟨((accounts_nested k).patternProperty h).room t.ended, ?_⟩
  simp only [patternProperty, keyedPattern, bind_ok, if_apply, pure_ok] at h
  obtain ⟨key, d, hkey, q, d', ⟨r, d₁, he, h⟩, _, _, hsep, rfl, rfl⟩ := h
  have td := t.within (((accounts_nested k).propertyKey hkey).room t.ended)
  obtain ⟨hstop, hends⟩ := ends_of_separator (.inr rfl) hsep
  rcases eat_ok he with ⟨rfl, hs, rfl⟩ | ⟨rfl, hs, rfl⟩
  · simp only [if_true, bind_ok, pure_ok] at h
    obtain ⟨p, d₂, hp, rfl, rfl⟩ := h
    have hmember : (nested k).objectMember b c
        = ((fun e => .property key e false) <$> (nested k).assignment) b d.next := by
      rw [objectMember_of_key t.ended hdots hkey (by rw [Cursor.kind_of_sees hs]; rfl), eatMark,
        bind_of_ok (eat_of_sees hs), ← bind_pure_comp]
      rfl
    have hvalue : Mirrored p.Plain (fun m : ObjectMember => m.StandsFor ⟨key, p, false⟩) d₂
        ((nested k).objectMember b c) := by
      rw [hmember]
      have tn := td.outer.next (Cursor.atEnd_of_sees hs)
      exact (assignment_mirrored hk hg tn hp hstop fun _ => hends).map fun e he => ⟨e, rfl, he⟩
    refine hvalue.bind (fun h => h.1) fun hpl hm => .skip hsep (.pure ⟨hpl, ?_⟩ hm)
    rintro ⟨⟩
  simp only [Bool.false_eq_true, if_false] at h
  cases hi : shorthandName? key with
  | none =>
    rw [hi] at h
    exact (fail_ok h).elim
  | some i =>
    obtain rfl := key_of_shorthandName? hi
    have hmember (hends : d₁.current.kind.endsKey = true) : (nested k).objectMember b c
        = .ok (.property (.name i) ⟨i.span, .ident i.name⟩ true) d₁ := by
      rw [objectMember_of_key t.ended hdots hkey hends, eatMark, bind_of_ok (eat_of_not_sees hs)]
      rfl
    rw [hi] at h
    simp only [defaultFor, bind_ok, if_apply, pure_ok] at h
    obtain ⟨p, d₃, ⟨r, d₂, he', hp⟩, rfl, rfl⟩ := h
    rcases eat_ok he' with ⟨rfl, hs', rfl⟩ | ⟨rfl, hs', rfl⟩
    · simp only [if_true, bind_ok, pure_ok] at hp
      obtain ⟨v, _, -, rfl, rfl⟩ := hp
      have hkind := Cursor.kind_of_sees hs'
      refine .of_fails (fun h => h.2 rfl _ _ rfl) fun m e hr => ?_
      simp only [memberInList, bind_ok, hmember (by rw [hkind]; rfl)] at hr
      obtain ⟨_, _, ⟨⟩, _, _, hsep, -⟩ := hr
      have hstop := (ends_of_separator (.inr rfl) hsep).1
      rw [goesOn, Token.precedence, hkind] at hstop
      cases hstop
    · simp only [Bool.false_eq_true, if_false] at hp
      obtain ⟨rfl, rfl⟩ := pure_ok.mp hp
      have hends : d₂.current.kind.endsKey = true := by
        rcases separator_ok hsep with hs | hs
        all_goals
          rw [Cursor.kind_of_sees hs]
          rfl
      refine .skip (hmember hends) (.skip hsep (.pure ⟨.ident, ?_⟩ ⟨_, rfl, .ident⟩))
      rintro - _ _ ⟨⟩

theorem objectRest_mirrored (hk : n ≤ k) (hg : (nested k).Mirrors n) {p : Pattern} (t : c.Room o n)
    (hs : c.seesMark .dotDotDot = true) (hp : (nested k).pattern b c.next = .ok p c')
    (hend : c'.seesMark .rBrace = true) :
    c'.Room c c.ahead.length ∧
      Mirrored p.Plain (fun m => m.Spreads p) c' ((nested k).memberInList b c) := by
  have tn := Cursor.room_next t.ended (Cursor.atEnd_of_sees hs)
  have hmember : (nested k).objectMember b c
      = (ObjectMember.spread <$> (nested k).assignment) b c.next := by
    rw [objectMember, eatMark, bind_of_ok (eat_of_sees hs), ← bind_pure_comp]
    rfl
  have hspread : Mirrored p.Plain (fun m : ObjectMember => m.Spreads p) c'
      ((nested k).objectMember b c) := by
    rw [hmember]
    obtain ⟨hstop, hends⟩ := ends_of_sees (b := b) hend (.inr (.inr rfl))
    exact (pattern_mirrored hk hg (t.within tn) hp hstop fun _ => hends).map
      fun e he => ⟨e, rfl, he⟩
  refine ⟨tn.within (((accounts_nested k).pattern hp).takes.room tn.ended), ?_⟩
  exact hspread.bind id fun hpl hm => .skip (separator_of_sees hend) (.pure hpl hm)

theorem objectLiteral_mirrored (hk : n ≤ k) (hg : (nested k).Mirrors n) {f : PatternForm}
    {span : Span} (t : c.Room o (n + 1)) (h : (nested k).objectPattern b c = .ok f c') :
    Mirrored (Pattern.Plain ⟨span, f⟩) (fun form => ∀ s, Expr.StandsFor ⟨s, form⟩ ⟨span, f⟩) c'
      ((nested k).objectLiteral b c) := by
  simp only [objectPattern, bind_ok, pure_ok] at h
  obtain ⟨_, _, h₁, qs, d, h₂, r, d', h₃, _, _, h₄, rfl, rfl⟩ := h
  obtain ⟨hs₁, rfl⟩ := consumeMark_ok h₁
  obtain ⟨hs₄, rfl⟩ := consumeMark_ok h₄
  have tn : c.next.Room o n := t.next (Cursor.atEnd_of_sees hs₁)
  have hlist : Mirrored _ _ d' (Parser.manyUntil .rBrace (nested k).memberInList b c.next) :=
    .manyUntil (patternProperty_mirrored hk hg) (objectRest_mirrored hk hg) (by decide) tn h₂ h₃
      hs₄
  have hmembers : Mirrored _ _ d'.next
      (Parser.commaList .rBrace (nested k).objectMember b c.next) :=
    hlist.bind id fun hpl hms => .skip (consumeMark_of_sees hs₄) (.pure hpl hms)
  refine .skip (consumeMark_of_sees hs₁) (hmembers.bind Pattern.plain_object.mp fun hpl hms => ?_)
  exact .pure (Pattern.plain_object.mpr hpl) fun s => .object hms

/-! ## All patterns -/

theorem identifierExpression_of_ends (hc : c.Ended) (hk : c.current.kind = .identifier)
    (hends : c.next.current.kind.endsTarget = true) :
    g.identifierExpression b c = identExpr b c := by
  have hsecond := secondKind?_eq hc (by simp [Cursor.atEnd, hk])
  have harrow : (some c.next.current.kind == some (.punct .fatArrow)) = false := by
    rw [beq_eq_false_iff_ne]
    intro h
    rw [Option.some.inj h] at hends
    cases hends
  rw [identifierExpression, bind_of_ok (get_ok.mpr ⟨rfl, rfl⟩)]
  simp only [hsecond, harrow, Bool.false_and, Bool.false_eq_true, if_false]
  generalize c.next.current.kind = kind at hends
  unfold TokenKind.endsTarget at hends
  rw [if_apply]
  split
  · split at hends
    iterate 4 rfl
    cases hends
  · rfl

theorem primary_of_lBracket (h : c.current.kind = .punct .lBracket) : g.primaryExpression b c
    = (do let form ← g.arrayLiteral; return ⟨← Parser.spanFrom c.current.span, form⟩ : Parser Expr)
      b c := by
  obtain ⟨previous, ⟨kind, span, value, newline⟩, ahead⟩ := c
  cases h
  rfl

theorem primary_of_lBrace (h : c.current.kind = .punct .lBrace) : g.primaryExpression b c
    = (do let form ← g.objectLiteral; return ⟨← Parser.spanFrom c.current.span, form⟩ : Parser Expr)
      b c := by
  obtain ⟨previous, ⟨kind, span, value, newline⟩, ahead⟩ := c
  cases h
  rfl

theorem primary_of_identifier (h : c.current.kind = .identifier) :
    g.primaryExpression b c = g.identifierExpression b c := by
  obtain ⟨previous, ⟨kind, span, value, newline⟩, ahead⟩ := c
  cases h
  rfl

theorem mirrors_nested (hk : n ≤ k) : (nested k).Mirrors n := by
  induction n generalizing k with
  | zero => exact fun t => (Nat.not_lt_zero _ t.ahead).elim
  | succ n ih =>
    obtain ⟨k, rfl⟩ : ∃ k', k = k' + 1 := Nat.exists_eq_succ_of_ne_zero (Nat.ne_zero_of_lt hk)
    have hk := Nat.le_of_succ_le_succ hk
    intro b o c c' p t h hname
    change (nested k).readPattern b c = .ok p c' at h
    change Mirrored _ _ _ ((nested k).primaryExpression b c)
    have hstarts := pattern_starts h
    simp only [Grammar.readPattern, bind_ok, here_ok, spanFrom_ok, pure_ok] at h
    obtain ⟨_, _, ⟨rfl, rfl⟩, f, d, hf, _, _, ⟨rfl, rfl⟩, rfl, rfl⟩ := h
    simp only [patternForm, bind_ok, get_ok] at hf
    obtain ⟨_, _, ⟨rfl, rfl⟩, hf⟩ := hf
    obtain hkind | hkind | hkind := hstarts
    · rw [hkind] at hf
      rw [primary_of_lBracket hkind]
      refine (arrayLiteral_mirrored hk (ih hk) t hf).bind id fun hpl he => ?_
      exact .skip (spanFrom_ok.mpr ⟨rfl, rfl⟩) (.pure hpl (he _))
    · rw [hkind] at hf
      rw [primary_of_lBrace hkind]
      refine (objectLiteral_mirrored hk (ih hk) t hf).bind id fun hpl he => ?_
      exact .skip (spanFrom_ok.mpr ⟨rfl, rfl⟩) (.pure hpl (he _))
    · have hends := hname hkind
      rw [hkind] at hf
      obtain ⟨i, hi, rfl⟩ := map_ok.mp hf
      have hident : identExpr b c = .ok ⟨i.span, .ident i.name⟩ d := by
        rw [identExpr, bind_of_ok hi]
        rfl
      simp only [ident, bind_ok, pure_ok] at hi
      obtain ⟨token, _, hi, -, rfl⟩ := hi
      obtain ⟨-, -, rfl⟩ := consume_ok hi
      rw [primary_of_identifier hkind, identifierExpression_of_ends t.ended hkind hends, hident]
      exact .ok .ident .ident

/-! ## The head of a loop over values -/

theorem pattern_of_forStart {kind : VarKind} {p : Pattern}
    (h : g.forStart b c = .ok (.vars kind [⟨p, none⟩]) c') :
    c.atEnd = false ∧ g.pattern b c.next = .ok p c' ∧ c'.seesMark .comma = false := by
  simp only [forStart, bind_ok, get_ok, if_apply] at h
  obtain ⟨_, _, ⟨rfl, rfl⟩, h⟩ := h
  split at h
  · cases (pure_ok.mp h).1
  split at h
  · simp only [bindings, bind_ok, get_ok, pure_ok] at h
    obtain ⟨⟨_, bs⟩, c₂, ⟨_, _, ⟨rfl, rfl⟩, h⟩, hs, rfl⟩ := h
    cases hs
    cases hk : VarKind.ofToken? c.current.kind with
    | none =>
      rw [hk] at h
      exact (fail_ok h).elim
    | some kind =>
      rw [hk] at h
      simp only [binding, bind_ok, advance_ok, pure_ok] at h
      obtain ⟨_, _, ⟨-, rfl⟩, _, _, ⟨p, d, hp, _, _, hv, rfl, rfl⟩, _, _, ho, hb, rfl⟩ := h
      obtain ⟨rfl, rfl⟩ := (Prod.mk.inj hb).2
      obtain ⟨hcomma, rfl⟩ := many_nil ho
      rcases after_ok hv with ⟨_, _, -, -, ⟨⟩⟩ | ⟨rfl, -⟩
      have hend : c.atEnd = false := by
        simpa [Cursor.atEnd] using (Accounts.neutral_of_varKind hk).1
      exact ⟨hend, hp, hcomma⟩
  · simp only [bind_ok, pure_ok] at h
    obtain ⟨_, _, -, h, -⟩ := h
    cases h

theorem forStart_of_opens
    (h : c.current.kind = .punct .lBracket ∨ c.current.kind = .punct .lBrace) :
    g.forStart b c = (ForStart.expr <$> Grammar.commaSequence g.assignment) b c := by
  rw [← bind_pure_comp]
  obtain ⟨previous, ⟨kind, span, value, newline⟩, ahead⟩ := c
  obtain rfl | rfl : kind = _ ∨ kind = _ := h
  all_goals rfl

/-- If the head of a loop declares one pattern that starts with a bracket, then without the word
that declares it the same pattern is the target of the loop, up to spans, exactly if no property in
it that stands for its own name has a default; else the head cannot be read. -/
theorem forTarget_mirrored {kind : VarKind} {p : Pattern} (hc : c.Ended)
    (hk : c.ahead.length ≤ k)
    (h : (nested k).forStart b c = .ok (.vars kind [⟨p, none⟩]) c')
    (hopens : c.next.current.kind ≠ .identifier) (hstop : goesOn b 1 c' = false) :
    Mirrored p.Plain (fun t => ∃ q, t = ForTarget.pattern q ∧ q.bare .none = p.bare .none) c'
      ((do forTarget (← (nested k).forStart) : Parser ForTarget) b c.next) := by
  obtain ⟨hend, hp, hcomma⟩ := pattern_of_forStart h
  have hfirst : Mirrored p.Plain (·.StandsFor p) c' ((nested k).assignment b c.next) :=
    pattern_mirrored hk (mirrors_nested hk) (Cursor.room_next hc hend) hp hstop
      fun h => (hopens h).elim
  have hsequence : Mirrored p.Plain (·.StandsFor p) c'
      (Grammar.commaSequence (nested k).assignment b c.next) := by
    refine hfirst.bind id fun hpl he => .skip (get_ok.mpr ⟨rfl, rfl⟩) ?_
    rw [hcomma]
    exact .pure hpl he
  have hopens : c.next.current.kind = .punct .lBracket ∨ c.next.current.kind = .punct .lBrace := by
    cases k with
    | zero => cases hp
    | succ k => simpa [hopens] using pattern_starts hp
  have hstart : Mirrored p.Plain (fun s => ∃ e, s = ForStart.expr e ∧ e.StandsFor p) c'
      ((nested k).forStart b c.next) := by
    rw [forStart_of_opens hopens]
    exact hsequence.map fun e he => ⟨e, rfl, he⟩
  refine hstart.bind id fun hpl hs => ?_
  obtain ⟨e, rfl, q, hq, hb⟩ := hs
  rw [forTarget, hq]
  exact .pure hpl ⟨q, rfl, hb⟩

end Grammar
end ModuleBundler
