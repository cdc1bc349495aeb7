import ModuleBundler.Grammar.Module

/-! What it means for a reader to succeed, step by step: lemmas that take a successful run of a
composed reader apart. -/
namespace ModuleBundler
open EStateM (Result)

namespace Parser

variable {α β : Type} {b : Bool} {c c' : Cursor}

theorem bind_apply (p : Parser α) (f : α → Parser β) (b : Bool) (c : Cursor) :
    (p >>= f) b c = match p b c with
      | .ok a c' => f a b c'
      | .error e c' => .error e c' := by
  change EStateM.bind (p b) (fun a => f a b) c = _
  rw [EStateM.bind]
  cases p b c <;> rfl

@[simp] theorem bind_ok {p : Parser α} {f : α → Parser β} {r : β} :
    (p >>= f) b c = .ok r c' ↔ ∃ a c₁, p b c = .ok a c₁ ∧ f a b c₁ = .ok r c' := by
  rw [bind_apply]
  constructor
  · intro h
    split at h
    · next a c₁ hp => exact ⟨a, c₁, hp, h⟩
    · cases h
  · rintro ⟨a, c₁, hp, h⟩
    rw [hp]
    exact h

@[simp] theorem pure_ok {a r : α} : (pure a : Parser α) b c = .ok r c' ↔ a = r ∧ c = c' := by
  constructor
  · intro h
    cases h
    exact ⟨rfl, rfl⟩
  · rintro ⟨rfl, rfl⟩
    rfl

@[simp] theorem get_ok {r : Cursor} :
    (get : Parser Cursor) b c = .ok r c' ↔ c = r ∧ c = c' := by
  constructor
  · intro h
    cases h
    exact ⟨rfl, rfl⟩
  · rintro ⟨rfl, rfl⟩
    rfl

@[simp] theorem read_ok {r : Bool} : (read : Parser Bool) b c = .ok r c' ↔ b = r ∧ c = c' := by
  constructor
  · intro h
    cases h
    exact ⟨rfl, rfl⟩
  · rintro ⟨rfl, rfl⟩
    rfl

@[simp] theorem map_ok {f : α → β} {p : Parser α} {r : β} :
    (f <$> p) b c = .ok r c' ↔ ∃ a, p b c = .ok a c' ∧ f a = r := by
  rw [← bind_pure_comp, bind_ok]
  simp

@[simp] theorem withIn_apply (p : Parser α) : withIn p b c = p true c := rfl

@[simp] theorem withoutIn_apply (p : Parser α) : withoutIn p b c = p false c := rfl

@[simp] theorem throw_ok {e : ParseError} {r : α} :
    ¬ (throw e : Parser α) b c = .ok r c' := by rintro ⟨⟩

@[simp] theorem failAt_ok {s : Span} {fault : Fault} {r : α} :
    ¬ (failAt s fault : Parser α) b c = .ok r c' := by rintro ⟨⟩

@[simp] theorem fail_ok {fault : Fault} {r : α} :
    ¬ (fail fault : Parser α) b c = .ok r c' := by rintro ⟨⟩

@[simp] theorem unexpected_ok {fault : TokenKind → Fault} {r : α} :
    ¬ (unexpected fault : Parser α) b c = .ok r c' := by rintro ⟨⟩

@[simp] theorem if_apply {P : Prop} [Decidable P] (p q : Parser α) :
    (if P then p else q) b c = if P then p b c else q b c := by
  split <;> rfl

@[simp] theorem advance_ok {t : Token} :
    advance b c = .ok t c' ↔ t = c.next.previous ∧ c' = c.next := by
  constructor
  · intro h
    cases h
    exact ⟨rfl, rfl⟩
  · rintro ⟨rfl, rfl⟩
    rfl

@[simp] theorem here_ok {s : Span} :
    here b c = .ok s c' ↔ c.current.span = s ∧ c = c' := by
  simp [here, and_assoc, and_comm]

@[simp] theorem spanFrom_ok {s start : Span} :
    spanFrom start b c = .ok s c' ↔ start.merge c.previous.span = s ∧ c = c' := by
  simp [spanFrom, and_assoc, and_comm]

theorem eat_ok {kind : TokenKind} {r : Bool} (h : eat kind b c = .ok r c') :
    r = true ∧ c.sees kind = true ∧ c' = c.next ∨ r = false ∧ c.sees kind = false ∧ c' = c := by
  simp only [eat, bind_ok, get_ok, if_apply] at h
  obtain ⟨_, _, ⟨rfl, rfl⟩, h⟩ := h
  split at h
  · next hs =>
    simp only [bind_ok, advance_ok, pure_ok] at h
    obtain ⟨_, _, ⟨-, rfl⟩, rfl, rfl⟩ := h
    exact .inl ⟨rfl, hs, rfl⟩
  · next hs =>
    obtain ⟨rfl, rfl⟩ := pure_ok.mp h
    exact .inr ⟨rfl, by simpa using hs, rfl⟩

/-- What is not eaten is left. -/
theorem eat_stays {kind : TokenKind} {r : Bool} (h : eat kind b c = .ok r c') (hr : ¬r = true) :
    c' = c := by
  rcases eat_ok h with ⟨rfl, -⟩ | ⟨-, -, rfl⟩
  · exact absurd rfl hr
  · rfl

theorem eatWord_ok {word : String} {r : Bool} (h : eatWord word b c = .ok r c') :
    r = true ∧ c.seesWord word = true ∧ c' = c.next
      ∨ r = false ∧ c.seesWord word = false ∧ c' = c := by
  simp only [eatWord, bind_ok, get_ok, if_apply] at h
  obtain ⟨_, _, ⟨rfl, rfl⟩, h⟩ := h
  split at h
  · next hs =>
    simp only [bind_ok, advance_ok, pure_ok] at h
    obtain ⟨_, _, ⟨-, rfl⟩, rfl, rfl⟩ := h
    exact .inl ⟨rfl, hs, rfl⟩
  · next hs =>
    obtain ⟨rfl, rfl⟩ := pure_ok.mp h
    exact .inr ⟨rfl, by simpa using hs, rfl⟩

theorem after_ok {kind : TokenKind} {p : Parser α} {r : Option α}
    (h : after kind p b c = .ok r c') :
    (∃ c₁ a, eat kind b c = .ok true c₁ ∧ p b c₁ = .ok a c' ∧ r = some a)
      ∨ c' = c ∧ r = none := by
  simp only [after, bind_ok, if_apply] at h
  obtain ⟨r, c₁, hr, h⟩ := h
  split at h
  · next ht =>
    subst ht
    simp only [bind_ok, pure_ok] at h
    obtain ⟨a, _, ha, rfl, rfl⟩ := h
    exact .inl ⟨c₁, a, hr, ha, rfl⟩
  · next hf =>
    obtain ⟨rfl, rfl⟩ := pure_ok.mp h
    exact .inr ⟨eat_stays hr hf, rfl⟩

theorem consume_ok {kind : TokenKind} {t : Token} (h : consume kind b c = .ok t c') :
    c.sees kind = true ∧ t = c.next.previous ∧ c' = c.next := by
  simp only [consume, bind_ok, get_ok, if_apply] at h
  obtain ⟨_, _, ⟨rfl, rfl⟩, h⟩ := h
  split at h
  · next hs => exact ⟨hs, advance_ok.mp h⟩
  · cases unexpected_ok h

theorem consumeMark_ok {p : Punctuator} {u : Unit} (h : consumeMark p b c = .ok u c') :
    c.seesMark p = true ∧ c' = c.next := by
  simp only [consumeMark, bind_ok, pure_ok] at h
  obtain ⟨t, _, h, -, rfl⟩ := h
  obtain ⟨hs, -, hc⟩ := consume_ok h
  exact ⟨hs, hc⟩

theorem bind_of_ok {p : Parser α} {f : α → Parser β} {a : α} {c₁ : Cursor}
    (h : p b c = .ok a c₁) : (p >>= f) b c = f a b c₁ := by rw [bind_apply, h]

theorem eat_of_sees {kind : TokenKind} (h : c.sees kind = true) :
    eat kind b c = .ok true c.next := by
  rw [eat, bind_of_ok (get_ok.mpr ⟨rfl, rfl⟩), h]
  rfl

theorem eat_of_not_sees {kind : TokenKind} (h : c.sees kind = false) :
    eat kind b c = .ok false c := by
  rw [eat, bind_of_ok (get_ok.mpr ⟨rfl, rfl⟩), h]
  rfl

theorem consumeMark_of_sees {p : Punctuator} (h : c.seesMark p = true) :
    consumeMark p b c = .ok () c.next := by
  have hc : consume (.punct p) b c = .ok c.next.previous c.next := by
    rw [consume, bind_of_ok (get_ok.mpr ⟨rfl, rfl⟩), show c.sees (.punct p) = true from h]
    rfl
  rw [consumeMark, bind_of_ok hc]
  rfl

theorem consumeKeyword_of_sees {w : Keyword} (h : c.seesKeyword w = true) :
    consumeKeyword w b c = .ok () c.next := by
  have hc : consume (.keyword w) b c = .ok c.next.previous c.next := by
    rw [consume, bind_of_ok (get_ok.mpr ⟨rfl, rfl⟩), show c.sees (.keyword w) = true from h]
    rfl
  rw [consumeKeyword, bind_of_ok hc]
  rfl

theorem separator_of_sees {close : Punctuator} (h : c.seesMark close = true) :
    separator close b c = .ok () c := by
  rw [separator, bind_of_ok (get_ok.mpr ⟨rfl, rfl⟩), h]
  rfl

/-- A repetition ends where its test fails. -/
theorem iterate_stop {continues : Cursor → Bool} {step : α → Parser α} {x : α}
    (h : continues c = false) : iterate continues step x b c = .ok x c := by
  rw [iterate.eq_def, h]
  rfl

/-- A property of a place and of what has been read so far holds when a repetition ends, if it
holds at the beginning and every step keeps it. -/
theorem iterate_induction {continues : Cursor → Bool} {step : α → Parser α}
    {I : α → Cursor → Prop} {a r : α}
    (keeps : ∀ a c r c', I a c → continues c = true → step a b c = .ok r c' → I r c')
    (h : iterate continues step a b c = .ok r c') (start : I a c) : I r c' := by
  fun_induction iterate continues step a b c with
  | case1 a c hc e c₁ hs => cases h
  | case2 a c hc r' c₁ hs hl ih => exact ih h (keeps a c r' c₁ start hc hs)
  | case3 a c hc r' c₁ hs hl =>
    cases h
    exact keeps a c r c' start hc hs
  | case4 a c hc =>
    cases h
    exact start

theorem many_ok {continues : Cursor → Bool} {item : Parser α} {as : List α} :
    many continues item b c = .ok as c' ↔ ∃ items,
      iterate continues (fun items => return (← item) :: items) [] b c = .ok items c'
        ∧ items.reverse = as := by
  simp only [many, bind_ok, pure_ok]
  constructor
  · rintro ⟨items, c₁, h, rfl, rfl⟩
    exact ⟨items, h, rfl⟩
  · rintro ⟨items, h, rfl⟩
    exact ⟨items, c', h, rfl, rfl⟩

theorem map_apply (f : α → β) (p : Parser α) (b : Bool) (c : Cursor) :
    (f <$> p) b c = match p b c with
      | .ok a c' => .ok (f a) c'
      | .error e c' => .error e c' := by
  rw [← bind_pure_comp, bind_apply]
  rfl

/-- Reads items with those that have been read already, the last one first. -/
def push (continues : Cursor → Bool) (item : Parser α) (items : List α) : Parser (List α) :=
  iterate continues (fun items => return (← item) :: items) items

theorem push_eq {continues : Cursor → Bool} {item : Parser α} {items : List α} :
    push continues item items b c = if continues c then
        match item b c with
        | .ok a c' =>
          if c'.ahead.length < c.ahead.length then push continues item (a :: items) b c'
          else .ok (a :: items) c'
        | .error e c' => .error e c'
      else .ok items c := by
  have hstep : (do return (← item) :: items : Parser (List α)) b c
      = match item b c with
        | .ok a c' => .ok (a :: items) c'
        | .error e c' => .error e c' := by
    rw [bind_apply]
    rfl
  rw [push, iterate.eq_def, hstep]
  split
  · cases item b c <;> rfl
  · rfl

/-- What has been read already stays behind what is read. -/
theorem push_append {continues : Cursor → Bool} {item : Parser α} (items : List α) :
    push continues item items b c = ((· ++ items) <$> push continues item []) b c := by
  induction hl : c.ahead.length using Nat.strongRecOn generalizing items c with
  | ind l ih =>
    subst hl
    rw [map_apply, push_eq, push_eq]
    cases continues c with
    | false => rfl
    | true =>
      cases item b c with
      | error e c' => rfl
      | ok a c' =>
        by_cases hl : c'.ahead.length < c.ahead.length
        · simp only [if_true, if_pos hl]
          rw [ih _ hl (a :: items) rfl, ih _ hl [a] rfl, map_apply, map_apply]
          cases push continues item [] b c' <;> simp
        · simp only [if_true, if_neg hl]
          rfl

/-- The first step of reading items, with the rest of them. -/
theorem many_eq {continues : Cursor → Bool} {item : Parser α} :
    many continues item b c = if continues c then
        match item b c with
        | .ok a c' =>
          if c'.ahead.length < c.ahead.length then ((a :: ·) <$> many continues item) b c'
          else .ok [a] c'
        | .error e c' => .error e c'
      else .ok [] c := by
  have hmany (c : Cursor) : many continues item b c
      = (List.reverse <$> push continues item []) b c := by
    rw [← bind_pure_comp]
    rfl
  rw [hmany, map_apply, push_eq]
  cases continues c with
  | false => rfl
  | true =>
    cases item b c with
    | error e c' => rfl
    | ok a c' =>
      by_cases hl : c'.ahead.length < c.ahead.length
      · simp only [if_true, if_pos hl]
        rw [push_append, map_apply, map_apply, hmany, map_apply]
        cases push continues item [] b c' <;> simp
      · simp only [if_true, if_neg hl]
        rfl

/-- The first item was read where the list starts. -/
theorem many_cons {continues : Cursor → Bool} {item : Parser α} {a : α} {as : List α}
    (h : many continues item b c = .ok (a :: as) c') : ∃ c₁, item b c = .ok a c₁ := by
  rw [many_eq] at h
  split at h
  · cases hx : item b c with
    | error e c₁ =>
      rw [hx] at h
      cases h
    | ok x c₁ =>
      rw [hx] at h
      dsimp only at h
      split at h
      · obtain ⟨xs, -, h⟩ := map_ok.mp h
        obtain ⟨rfl, -⟩ := List.cons.inj h
        exact ⟨c₁, rfl⟩
      · cases h
        exact ⟨c', rfl⟩
  · cases h

/-- If there are no items, the test fails where the list starts. -/
theorem many_nil {continues : Cursor → Bool} {item : Parser α}
    (h : many continues item b c = .ok [] c') : continues c = false ∧ c' = c := by
  rw [many_eq] at h
  split at h
  · cases hx : item b c with
    | error e c₁ =>
      rw [hx] at h
      cases h
    | ok x c₁ =>
      rw [hx] at h
      dsimp only at h
      split at h
      · obtain ⟨xs, -, h⟩ := map_ok.mp h
        cases h
      · cases h
  · next hc =>
    cases h
    exact ⟨Bool.eq_false_iff.mpr hc, rfl⟩

end Parser

/-! ## Whole modules -/

theorem Program.ofTokens_ok {tokens : List Token} {program : Program} :
    Program.ofTokens tokens = .ok program ↔
      let c := Cursor.ofTokens tokens
      let parsed := (Grammar.nested (c.ahead.length + 1)).items c
      parsed.errors = [] ∧ program = ⟨⟨0, parsed.stop⟩, parsed.items⟩ := by
  rw [Program.ofTokens]
  dsimp only
  split
  · next h => simp [List.isEmpty_iff.mp h, eq_comm]
  · next h => simp [mt List.isEmpty_iff.mpr h]

theorem Program.ofTokens_error {tokens : List Token} {errors : List ParseError} :
    Program.ofTokens tokens = .error errors ↔
      let c := Cursor.ofTokens tokens
      errors ≠ [] ∧ errors = ((Grammar.nested (c.ahead.length + 1)).items c).errors := by
  rw [Program.ofTokens]
  dsimp only
  split
  · next h =>
    rw [List.isEmpty_iff] at h
    simp [h]
  · next h =>
    rw [List.isEmpty_iff] at h
    simp only [Except.error.injEq]
    constructor
    · rintro rfl
      exact ⟨h, rfl⟩
    · rintro ⟨-, rfl⟩
      rfl

end ModuleBundler
