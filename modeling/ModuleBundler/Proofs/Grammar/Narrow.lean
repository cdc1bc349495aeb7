import ModuleBundler.Proofs.Grammar.Depth
import ModuleBundler.Proofs.Tree.OpenIn

/-! Reading the same tokens twice, with `in` as an operator and with `in` as the mark of a loop. The
second reading gives the same unless an `in` stands open in what the first one reads; then it fails
or halts before that `in`, or before the arrow of an arrow function that has it in its
parameters. -/
namespace ModuleBundler
open EStateM (Result)

variable {o : Cursor} {n m : Nat} {α β : Type} {b : Bool} {c c' c₁ c₂ : Cursor}

/-! ## Where reading halts -/

/-- The token is `in` or an arrow, with which nothing begins. -/
def TokenKind.halts : TokenKind → Bool
  | .keyword .inKw | .punct .fatArrow => true
  | _ => false

namespace Cursor

/-- The next token is `in` or an arrow. -/
def Halted (c : Cursor) : Prop := c.current.kind.halts = true

/-- The tokens from one place to another are parentheses with what is between them. -/
def Group (c c' : Cursor) : Prop :=
  ∃ w d, c.seesMark .lParen = true ∧ c.next.Moves w d ∧ Bracket.run [] w = some [] ∧
    d.seesMark .rParen = true ∧ c' = d.next

/-- The next tokens are parentheses with an arrow after them. -/
def BeforeArrow (c : Cursor) : Prop :=
  c.Ended ∧ ∃ c', c.Group c' ∧ c'.current.kind = .punct .fatArrow

/-- The next token is `in` or an arrow, or only parentheses stand before an arrow. -/
def Held (c : Cursor) : Prop := c.Halted ∨ c.BeforeArrow

/-- A closing parenthesis is not passed where all brackets are closed. -/
theorem not_passes {t : Token} {v w : List Token} (ht : t.kind = .punct .rParen)
    (hv : Bracket.run [] v = some []) (hw : Bracket.run [] (v ++ t :: w) = some []) : False := by
  rw [Bracket.run_append, hv, Option.bind_some, ← List.singleton_append, Bracket.run_append,
    Bracket.run_singleton, ht] at hw
  cases hw

/-- Parentheses that open at one place close at one place. -/
theorem Group.unique (h : c.Group c₁) (h' : c.Group c₂) : c₁ = c₂ := by
  obtain ⟨v, d, -, hv, hrv, hd, rfl⟩ := h
  obtain ⟨w, e, -, hw, hrw, he, rfl⟩ := h'
  suffices h : v = w by
    subst h
    obtain ⟨hc, ha⟩ := List.cons.inj (List.append_cancel_left (hv.tokens.symm.trans hw.tokens))
    have hp := hv.previous.trans hw.previous.symm
    obtain ⟨_, _, _⟩ := d
    obtain ⟨_, _, _⟩ := e
    cases hc
    cases ha
    cases hp
    rfl
  rcases List.append_eq_append_iff.mp (hv.tokens.symm.trans hw.tokens) with
    ⟨u, rfl, hu⟩ | ⟨u, rfl, hu⟩
  · cases u with
    | nil => rw [List.append_nil]
    | cons t u =>
      obtain ⟨rfl, -⟩ := List.cons.inj hu
      exact (not_passes (kind_of_sees hd) hrv hrw).elim
  · cases u with
    | nil => rw [List.append_nil]
    | cons t u =>
      obtain ⟨rfl, -⟩ := List.cons.inj hu
      exact (not_passes (kind_of_sees he) hrw hrv).elim

theorem group_of_takes {m : Bool} {vs : List Visit} {os : List Outline} {d : Cursor}
    (hc : c.Ended) (hs : c.seesMark .lParen = true) (h : Takes m c.next vs os d)
    (hd : d.seesMark .rParen = true) : c.Group d.next := by
  obtain ⟨w, hw, hr, -⟩ := h (ended_next hc (atEnd_of_sees hs))
  exact ⟨w, d, hs, hw, hr, hd, rfl⟩

theorem Group.seesMark (h : c.Group c') : c.seesMark .lParen = true := by
  obtain ⟨_, _, hs, -⟩ := h
  exact hs

theorem Halted.sees (h : c.Halted) {kind : TokenKind} (hk : kind.halts = false) :
    c.sees kind = false := by
  rw [Bool.eq_false_iff]
  intro hs
  rw [Halted, kind_of_sees hs, hk] at h
  cases h

theorem Halted.not_sees (h : c.Halted) {kind : TokenKind} (hk : kind.halts = false)
    (hs : c.sees kind = true) : False := by
  rw [h.sees hk] at hs
  cases hs

end Cursor

namespace Parser

/-- What a repetition does after a step that it made at a place, where its test depends on whether
`in` is an operator. -/
def onward (test : Bool → Cursor → Bool) (step : α → Parser α) (c : Cursor) (x : α) : Parser α :=
  fun b c' =>
    if c'.ahead.length < c.ahead.length then iterate (test b) step x b c' else .ok x c'

theorem iterate_onward {test : Bool → Cursor → Bool} {step : α → Parser α} {b : Bool} {x : α}
    (h : test b c = true) :
    iterate (test b) step x b c = (step x >>= onward test step c) b c := by
  rw [iterate.eq_def, if_pos h, bind_apply]
  cases step x b c <;> rfl

/-- With `in` as the mark of a loop a reader can end only at certain places. -/
def Ends (h : Cursor → Prop) (p : Parser α) (c : Cursor) : Prop :=
  ∀ x c', p false c = .ok x c' → h c'

namespace Ends
variable {h h₁ : Cursor → Prop} {p : Parser α} {f : α → Parser β}

theorem pure {x : α} (hc : h c) : Ends h (pure x) c := by
  rintro _ _ hr
  obtain ⟨-, rfl⟩ := pure_ok.mp hr
  exact hc

theorem spanFrom {start : Span} (hc : h c) : Ends h (spanFrom start) c := by
  rintro _ _ ⟨⟩
  exact hc

theorem bind (hp : Ends h₁ p c) (hf : ∀ {x c₁}, h₁ c₁ → Ends h (f x) c₁) :
    Ends h (p >>= f) c := by
  intro y c' hr
  obtain ⟨x, c₁, hx, hr⟩ := bind_ok.mp hr
  exact hf (hp x c₁ hx) y c' hr

theorem get {f : Cursor → Parser β} (hf : Ends h (f c) c) : Ends h (MonadState.get >>= f) c := hf

theorem here {f : Span → Parser β} (hf : Ends h (f c.current.span) c) :
    Ends h (Parser.here >>= f) c := hf

theorem otherwise {x : Bool} {p q : Parser α} (hx : x = false) (hq : Ends h q c) :
    Ends h (if x then p else q) c := by
  subst hx
  exact hq

theorem spanned {start : Span} {k : Span → α} (hc : h c) :
    Ends h (do return k (← Parser.spanFrom start)) c := .bind (.spanFrom hc) fun hc => .pure hc

/-- Nothing is read after a reader that fails. -/
theorem of_fails (hp : Ends (fun _ => False) p c) : Ends h (p >>= f) c := hp.bind fun h => h.elim

theorem fail {fault : Fault} : Ends h (Parser.fail fault : Parser α) c :=
  fun _ _ hr => (fail_ok hr).elim

/-- Nothing is read where the test of a repetition fails. -/
theorem iterate {continues : Cursor → Bool} {step : α → Parser α} {x : α}
    (hs : continues c = false) (hc : h c) : Ends h (Parser.iterate continues step x) c := by
  intro y c' hr
  cases (iterate_stop hs).symm.trans hr
  exact hc

theorem many {continues : Cursor → Bool} (hs : continues c = false) (hc : h c) :
    Ends h (Parser.many continues p) c := (iterate hs hc).bind fun hc => .pure hc

/-- A repetition goes on from no place where its steps end in failure. -/
theorem onward {test : Bool → Cursor → Bool} {step : α → Parser α} {x : α} {o : Cursor}
    (halts : ∀ {x c}, h c → test false c = true → Ends (fun _ => False) (step x) c) (hc : h c) :
    Ends h (Parser.onward test step o x) c := by
  intro y d hr
  simp only [Parser.onward] at hr
  split at hr
  · cases hb : test false c with
    | true =>
      rw [iterate_onward hb] at hr
      obtain ⟨z, c', hz, -⟩ := bind_ok.mp hr
      exact (halts hc hb z c' hz).elim
    | false =>
      cases (iterate_stop hb).symm.trans hr
      exact hc
  · cases hr
    exact hc

end Ends
end Parser

namespace Cursor.Halted
open ModuleBundler.Parser
variable {h : Cursor → Prop}

theorem consume {kind : TokenKind} (hc : c.Halted) (hk : kind.halts = false) :
    Ends (fun _ => False) (Parser.consume kind) c := by
  intro t c' hr
  have hs := (consume_ok hr).1
  rw [hc.sees hk] at hs
  cases hs

theorem consumeMark {p : Punctuator} (hc : c.Halted) (hk : TokenKind.halts (.punct p) = false) :
    Ends (fun _ => False) (Parser.consumeMark p) c := .of_fails (hc.consume hk)

theorem consumeKeyword {w : Keyword} (hc : c.Halted)
    (hk : TokenKind.halts (.keyword w) = false) :
    Ends (fun _ => False) (Parser.consumeKeyword w) c := .of_fails (hc.consume hk)

theorem separator {close : Punctuator} (hc : c.Halted)
    (hk : TokenKind.halts (.punct close) = false) :
    Ends (fun _ => False) (Parser.separator close) c := by
  intro u c' hr
  simp only [Parser.separator, bind_ok, get_ok, if_apply] at hr
  obtain ⟨_, _, ⟨rfl, rfl⟩, hr⟩ := hr
  rw [Cursor.seesMark, hc.sees hk] at hr
  exact hc.consumeMark rfl u c' hr

/-- A token of another kind is not read. -/
theorem eat {kind : TokenKind} {f : Bool → Parser α} (hc : c.Halted) (hk : kind.halts = false)
    (hf : Ends h (f false) c) : Ends h (Parser.eat kind >>= f) c := by
  intro x c' h
  obtain ⟨r, d, he, hr⟩ := bind_ok.mp h
  rcases eat_ok he with ⟨-, hs, -⟩ | ⟨rfl, -, rfl⟩
  · rw [hc.sees hk] at hs
    cases hs
  · exact hf x c' hr

theorem semicolon (hc : c.Halted) (hh : h c) : Ends h Parser.semicolon c :=
  hc.eat rfl (.pure hh)

theorem after {kind : TokenKind} {p : Parser α} (hc : c.Halted) (hk : kind.halts = false)
    (hh : h c) : Ends h (Parser.after kind p) c :=
  hc.eat hk (.pure hh)

end Cursor.Halted

/-! ## Readers for which it does not matter whether `in` is an operator -/

namespace Parser

/-- It does not matter whether `in` is an operator. -/
def Flagless (p : Parser α) : Prop := ∀ c, p false c = p true c

namespace Flagless
variable {p q : Parser α} {f : α → Parser β}

theorem of_const {r : Cursor → Result ParseError Cursor α} :
    Flagless (fun _ => r : Parser α) := fun _ => rfl

theorem bind (hp : Flagless p) (hf : ∀ x, Flagless (f x)) : Flagless (p >>= f) := by
  intro c
  rw [bind_apply, bind_apply, hp c]
  cases p true c with
  | ok x c' => exact hf x c'
  | error e c' => rfl

theorem map {k : α → β} (hp : Flagless p) : Flagless (k <$> p) := by
  rw [← bind_pure_comp]
  exact hp.bind fun _ => of_const

theorem get {f : Cursor → Parser β} (hf : ∀ c, Flagless (f c)) :
    Flagless (MonadState.get >>= f) := fun c => hf c c

theorem ite {P : Prop} [Decidable P] (hp : Flagless p) (hq : Flagless q) :
    Flagless (if P then p else q) := by
  split
  · exact hp
  · exact hq

theorem eat {kind : TokenKind} : Flagless (Parser.eat kind) :=
  .get fun _ => .ite of_const of_const

theorem eatWord {word : String} : Flagless (Parser.eatWord word) :=
  .get fun _ => .ite of_const of_const

theorem consume {kind : TokenKind} : Flagless (Parser.consume kind) :=
  .get fun _ => .ite of_const of_const

theorem consumeMark {p : Punctuator} : Flagless (Parser.consumeMark p) :=
  consume.bind fun _ => of_const

theorem consumeKeyword {w : Keyword} : Flagless (Parser.consumeKeyword w) :=
  consume.bind fun _ => of_const

theorem semicolon : Flagless Parser.semicolon := eat.bind fun _ => of_const

theorem ident : Flagless Parser.ident := consume.bind fun _ => of_const

theorem propertyName : Flagless Parser.propertyName := .get fun _ => .ite of_const of_const

theorem separator {close : Punctuator} : Flagless (Parser.separator close) :=
  .get fun _ => .ite consumeMark of_const

theorem modifier {word : String} : Flagless (Parser.modifier word) :=
  .get fun _ => .get fun _ => .ite of_const of_const

theorem modifiers : Flagless Parser.modifiers := by
  refine bind (.get fun _ => .ite of_const modifier) fun _ => eat.bind fun _ => .ite of_const ?_
  refine modifier.bind fun _ => .ite of_const ?_
  exact modifier.bind fun _ => .ite of_const of_const

theorem after {kind : TokenKind} (hp : Flagless p) : Flagless (Parser.after kind p) :=
  eat.bind fun _ => .ite (hp.bind fun _ => of_const) of_const

end Flagless
end Parser

/-! ## Two outcomes -/

/-- Two outcomes of reading from one place, with `in` as an operator and with `in` as the mark of a
loop. The property `shows` says of what is read that an `in` stands open in it or in what was read
before it, and `prior` that one stands open in what was read before it. -/
structure Narrowed (o : Cursor) (n : Nat) (halts : Cursor → Prop) (prior : Prop) {α : Type}
    (shows : α → Prop) (r r' : Result ParseError Cursor α) : Prop where
  keeps : ∀ {x c}, r = .ok x c → ¬ shows x → ¬ prior ∧ r' = .ok x c
  stops : ∀ {x c}, r' = .ok x c → ¬ prior → ¬ shows x ∧ (r = .ok x c ∨ halts c)
  room : ∀ {x c}, r = .ok x c ∨ r' = .ok x c → c.Room o n

namespace Narrowed
open ModuleBundler.Parser

variable {h h₁ : Cursor → Prop} {prior prior' : Prop} {s s' : α → Prop} {s₁ : β → Prop}
variable {r r' q₁ q₂ : Result ParseError Cursor α} {p q : Parser α} {f : α → Parser β}

/-- A reader for which it does not matter whether `in` is an operator. -/
theorem of_same (hp : Same o n (p true c) (p true c)) (hf : Flagless p) :
    Narrowed o n h prior (fun _ => prior) (p true c) (p false c) where
  keeps hr hs := ⟨hs, (hf c).trans hr⟩
  stops hr hs := ⟨hs, .inl ((hf c).symm.trans hr)⟩
  room hr := by
    rw [hf c, or_self] at hr
    rw [hr] at hp
    exact hp.room

theorem error {r r' : Result ParseError Cursor α} (hr : ∀ {x c}, r ≠ .ok x c)
    (hr' : ∀ {x c}, r' ≠ .ok x c) : Narrowed o n h prior s r r' where
  keeps h := (hr h).elim
  stops h := (hr' h).elim
  room h := (h.elim hr hr').elim

theorem fail {fault : Fault} : Narrowed o n h prior s ((Parser.fail fault : Parser α) true c)
    ((Parser.fail fault : Parser α) false c) := .error fail_ok fail_ok

theorem unexpected {fault : TokenKind → Fault} :
    Narrowed o n h prior s ((Parser.unexpected fault : Parser α) true c)
      ((Parser.unexpected fault : Parser α) false c) := .error unexpected_ok unexpected_ok

theorem pure {x : α} (t : c.Room o n) (hx : s x ↔ prior) :
    Narrowed o n h prior s ((pure x : Parser α) true c) ((pure x : Parser α) false c) where
  keeps hr hs := by
    obtain ⟨rfl, rfl⟩ := pure_ok.mp hr
    exact ⟨fun hp => hs (hx.mpr hp), rfl⟩
  stops hr hp := by
    obtain ⟨rfl, rfl⟩ := pure_ok.mp hr
    exact ⟨fun hs => hp (hx.mp hs), .inl rfl⟩
  room hr := by
    rcases hr with hr | hr
    all_goals
      obtain ⟨-, rfl⟩ := pure_ok.mp hr
      exact t

/-- Up to a place where reading does not halt, what is read has no `in` that stands open. -/
theorem ok_iff (hn : Narrowed o n h False s r r') {x : α} (hh : ¬ h c) :
    r' = .ok x c ↔ r = .ok x c ∧ ¬ s x := by
  constructor
  · intro hr
    obtain ⟨hs, hr⟩ := hn.stops hr id
    exact ⟨hr.resolve_right hh, hs⟩
  · rintro ⟨hr, hs⟩
    exact (hn.keeps hr hs).2

theorem mono (hn : Narrowed o n h prior s r r') (hh : ∀ {c}, h c → h₁ c) :
    Narrowed o n h₁ prior s r r' where
  keeps := hn.keeps
  stops hr hp := (hn.stops hr hp).imp_right (·.imp_right hh)
  room := hn.room

theorem outer (hn : Narrowed o n h prior s r r') : Narrowed o (n + 1) h prior s r r' where
  keeps := hn.keeps
  stops := hn.stops
  room hr := (hn.room hr).outer

/-- What was read before comes on top of what is read now. -/
theorem also (hn : Narrowed o n h False s r r') :
    Narrowed o n h prior (fun x => prior ∨ s x) r r' where
  keeps hr hs := ⟨fun hp => hs (.inl hp), (hn.keeps hr fun h => hs (.inr h)).2⟩
  stops hr hp := ⟨fun hs => (hn.stops hr id).1 (hs.resolve_left hp), (hn.stops hr id).2⟩
  room := hn.room

theorem congr (hn : Narrowed o n h prior s r r') (hp : prior' ↔ prior) (hs : ∀ x, s' x ↔ s x) :
    Narrowed o n h prior' s' r r' where
  keeps hr hx := (hn.keeps hr fun h => hx ((hs _).mpr h)).imp_left (mt hp.mp)
  stops hr hx := (hn.stops hr (mt hp.mpr hx)).imp_left (mt (hs _).mp)
  room := hn.room

/-- Composed readers are narrowed if their parts are, and end in the right places after a part that
halts. -/
theorem bind (hp : Narrowed o n h₁ prior s (p true c) (p false c))
    (hf : ∀ {x c₁}, c₁.Room o n → Narrowed o m h (s x) s₁ (f x true c₁) (f x false c₁))
    (hh : ∀ {x c₁}, h₁ c₁ → Ends h (f x) c₁) :
    Narrowed o m h prior s₁ ((p >>= f) true c) ((p >>= f) false c) where
  keeps hr hs := by
    obtain ⟨x, c₁, hx, hr⟩ := bind_ok.mp hr
    obtain ⟨hs, hr'⟩ := (hf (hp.room (.inl hx))).keeps hr hs
    obtain ⟨hs, hx'⟩ := hp.keeps hx hs
    exact ⟨hs, bind_ok.mpr ⟨x, c₁, hx', hr'⟩⟩
  stops hr hs := by
    obtain ⟨x, c₁, hx, hr⟩ := bind_ok.mp hr
    obtain ⟨hs, hx'⟩ := hp.stops hx hs
    obtain ⟨hs, hr'⟩ := (hf (hp.room (.inr hx))).stops hr hs
    refine ⟨hs, ?_⟩
    rcases hx' with hx' | hc
    · exact hr'.imp_left fun hr' => bind_ok.mpr ⟨x, c₁, hx', hr'⟩
    · exact .inr (hh hc _ _ hr)
  room hr := by
    rcases hr with hr | hr
    · obtain ⟨x, c₁, hx, hr⟩ := bind_ok.mp hr
      exact (hf (hp.room (.inl hx))).room (.inl hr)
    · obtain ⟨x, c₁, hx, hr⟩ := bind_ok.mp hr
      exact (hf (hp.room (.inr hx))).room (.inr hr)

/-- A reader that does not halt goes first. -/
theorem andThen (hp : Narrowed o n (fun _ => False) prior s (p true c) (p false c))
    (hf : ∀ {x c₁}, c₁.Room o n → Narrowed o m h (s x) s₁ (f x true c₁) (f x false c₁)) :
    Narrowed o m h prior s₁ ((p >>= f) true c) ((p >>= f) false c) :=
  hp.bind hf fun h => h.elim

/-- A reader for which it does not matter whether `in` is an operator goes first. -/
theorem skip (hp : Same o n (p true c) (p true c)) (he : Flagless p)
    (hf : ∀ {x c₁}, p true c = .ok x c₁ → c₁.Room o n →
      Narrowed o m h prior s₁ (f x true c₁) (f x false c₁)) :
    Narrowed o m h prior s₁ ((p >>= f) true c) ((p >>= f) false c) := by
  rw [bind_apply, bind_apply, he c]
  cases hr : p true c with
  | error e c' => exact .error (by rintro _ _ ⟨⟩) (by rintro _ _ ⟨⟩)
  | ok x c₁ =>
    rw [hr] at hp
    exact hf hr hp.room

theorem map {k : α → β} (hp : Narrowed o n h prior s (p true c) (p false c))
    (hk : ∀ x, s₁ (k x) ↔ s x) :
    Narrowed o n h prior s₁ ((k <$> p) true c) ((k <$> p) false c) := by
  rw [← bind_pure_comp]
  exact hp.bind (fun t => .pure t (hk _)) fun hc => .pure hc

theorem get {f : Cursor → Parser β} (hf : Narrowed o n h prior s₁ (f c true c) (f c false c)) :
    Narrowed o n h prior s₁ ((MonadState.get >>= f) true c) ((MonadState.get >>= f) false c) := hf

theorem here {f : Span → Parser β}
    (hf : Narrowed o n h prior s₁ (f c.current.span true c) (f c.current.span false c)) :
    Narrowed o n h prior s₁ ((Parser.here >>= f) true c) ((Parser.here >>= f) false c) := hf

theorem ite {x : Bool} (yes : x = true → Narrowed o n h prior s (p true c) (p false c))
    (no : x = false → Narrowed o n h prior s (q true c) (q false c)) :
    Narrowed o n h prior s ((if x then p else q) true c) ((if x then p else q) false c) := by
  cases x with
  | true => exact yes rfl
  | false => exact no rfl

/-- What is read gets the span that it is read from. -/
theorem withSpan {start : Span} {k : Span → α → β}
    (hp : Narrowed o n h prior s (p true c) (p false c)) (hk : ∀ span x, s₁ (k span x) ↔ s x) :
    Narrowed o n h prior s₁ ((do let x ← p; return k (← spanFrom start) x : Parser β) true c)
      ((do let x ← p; return k (← spanFrom start) x : Parser β) false c) :=
  hp.bind (fun t => .pure t (hk _ _)) fun hc => .spanned hc

/-- If an `in` stands open in what was read before, it does not matter how what is read now goes on,
as long as another reader stops where reading halts. -/
theorem of_open {P : Prop} {k : Cursor → Prop} (hP : P) (hr : Narrowed o n h₁ P s r q₁)
    (hr' : Narrowed o n k False s q₂ r') (halts : ∀ {x c}, r' = .ok x c → h c) :
    Narrowed o n h False s r r' where
  keeps hx hs := ((hr.keeps hx hs).1 hP).elim
  stops hx hp := ⟨(hr'.stops hx hp).1, .inr (halts hx)⟩
  room hx := hx.elim (fun hx => hr.room (.inl hx)) fun hx => hr'.room (.inr hx)

/-- A repetition whose test allows less if `in` is the mark of a loop. Where it allows less, the
next step would read an `in`. -/
theorem iterate (test : Bool → Cursor → Bool) {step : α → Parser α}
    (less : ∀ {c}, test false c = true → test true c = true)
    (more : ∀ {x c}, c.Room o n → test true c = true → test false c = false →
      h c ∧ ∀ y c', step x true c = .ok y c' → s y ∧ c'.Room o n)
    (steps : ∀ {x c}, c.Room o n → test false c = true →
      Narrowed o n h (s x) s (step x true c) (step x false c))
    (halts : ∀ {x c}, h c → test false c = true → Ends (fun _ => False) (step x) c)
    {x : α} (t : c.Room o n) :
    Narrowed o n h (s x) s (Parser.iterate (test true) step x true c)
      (Parser.iterate (test false) step x false c) := by
  induction hl : c.ahead.length using Nat.strongRecOn generalizing x c with
  | ind l ih =>
    subst hl
    have hrest {y : α} {c' : Cursor} (t' : c'.Room o n) :
        Narrowed o n h (s y) s (onward test step c y true c') (onward test step c y false c') := by
      by_cases hl : c'.ahead.length < c.ahead.length
      · simp only [onward, if_pos hl]
        exact ih _ hl t' rfl
      · simp only [onward, if_neg hl]
        exact .pure t' Iff.rfl
    cases hb' : test false c with
    | true =>
      rw [iterate_onward (less hb'), iterate_onward hb']
      exact (steps t hb').bind hrest (.onward halts)
    | false =>
      rw [iterate_stop hb']
      cases hb : test true c with
      | true =>
        obtain ⟨hc, hstep⟩ := more (x := x) t hb hb'
        rw [iterate_onward hb]
        refine ⟨fun hr hs => ?_, ?_, ?_⟩
        · obtain ⟨y, c', hy, hr⟩ := bind_ok.mp hr
          obtain ⟨hsy, t'⟩ := hstep y c' hy
          exact absurd hsy ((hrest t').keeps hr hs).1
        · rintro _ _ ⟨⟩ hs
          exact ⟨hs, .inr hc⟩
        · rintro z d (hr | hr)
          · obtain ⟨y, c', hy, hr⟩ := bind_ok.mp hr
            exact (hrest (hstep y c' hy).2).room (.inl hr)
          · cases hr
            exact t
      | false =>
        rw [iterate_stop hb]
        exact .pure t Iff.rfl

theorem many {continues : Cursor → Bool}
    (items : ∀ {c}, c.Room o n → continues c = true → Narrowed o n h False s (p true c) (p false c))
    (halts : ∀ {c}, h c → continues c = true → Ends (fun _ => False) p c) (t : c.Room o n) :
    Narrowed o n h prior (fun xs => prior ∨ ∃ x ∈ xs, s x) (Parser.many continues p true c)
      (Parser.many continues p false c) := by
  have hall : Narrowed o n h (prior ∨ ∃ x ∈ ([] : List α), s x) (fun xs => prior ∨ ∃ x ∈ xs, s x)
      (Parser.iterate continues (fun xs => return (← p) :: xs) [] true c)
      (Parser.iterate continues (fun xs => return (← p) :: xs) [] false c) := by
    refine iterate (s := fun xs => prior ∨ ∃ x ∈ xs, s x) (fun _ => continues) (fun h => h)
      (fun _ h h' => ?_) (fun t hc => ?_) ?_ t
    · rw [h] at h'
      cases h'
    · refine (items t hc).also.bind (fun t => .pure t ?_) fun hc => .pure hc
      rw [or_assoc, or_comm (b := s _)]
      simp only [List.mem_cons, exists_eq_or_imp]
    · exact fun hc hb => .of_fails (halts hc hb)
  refine (hall.bind (fun t => .pure t ?_) fun hc => .pure hc).congr (by simp) fun _ => Iff.rfl
  simp only [List.mem_reverse]

theorem manyUntil {close : Punctuator}
    (items : ∀ {c}, c.Room o n → Narrowed o n (fun _ => False) False s (p true c) (p false c))
    (t : c.Room o n) :
    Narrowed o n h prior (fun xs => prior ∨ ∃ x ∈ xs, s x) (Parser.manyUntil close p true c)
      (Parser.manyUntil close p false c) :=
  (many (fun t _ => items t) (fun h => h.elim) t).mono fun h => h.elim

/-- The commas between the items of a list are read only where an item does not halt. -/
theorem commaList {close : Punctuator} (hk : TokenKind.halts (.punct close) = false)
    (items : ∀ {c}, c.Room o n → Narrowed o n Cursor.Halted False s (p true c) (p false c))
    (t : c.Room o n) :
    Narrowed o n h prior (fun xs => prior ∨ ∃ x ∈ xs, s x) (Parser.commaList close p true c)
      (Parser.commaList close p false c) := by
  refine (manyUntil (fun t => ?_) t).andThen fun t =>
    .skip t.outer.consumeMark .consumeMark fun _ t => .pure t Iff.rfl
  refine (items t).bind (fun t => ?_) fun hc => .of_fails (hc.separator hk)
  exact .skip t.separator .separator fun _ t => .pure t Iff.rfl

theorem after {kind : TokenKind}
    (hp : ∀ {c}, c.Room o n → Narrowed o n h False s (p true c) (p false c)) (t : c.Room o n) :
    Narrowed o n h prior (fun o => prior ∨ ∃ x ∈ o, s x) (Parser.after kind p true c)
      (Parser.after kind p false c) := by
  refine .skip t.eat .eat fun _ t => .ite (fun _ => ?_) fun _ => .pure t (by simp)
  exact (hp t).also.bind (fun t => .pure t (by simp)) fun hc => .pure hc

end Narrowed
end ModuleBundler
