import Mathlib.Logic.Function.Iterate
import ModuleBundler.Proofs.Grammar.LockstepStatement

/-! The bound on the nesting of parts is no bound: two grammars of nested parts read the same from
every place, with the same errors, if neither bound is below the number of tokens left there. -/
namespace ModuleBundler
open EStateM (Result)

/-- A place that is reached from the place `o`, with fewer than `n` tokens left after the next one.
The last of them is an end mark. -/
structure Cursor.Room (c o : Cursor) (n : Nat) : Prop where
  ended : c.Ended
  reached : o.Reaches c
  ahead : c.ahead.length < n

/-- Two outcomes are the same, at a place that is reached from the place `o`, and a success leaves
fewer than `n` tokens. -/
inductive Same (o : Cursor) (n : Nat) {α : Type} :
    Result ParseError Cursor α → Result ParseError Cursor α → Prop where
  | ok {x : α} {c : Cursor} : c.Room o n → Same o n (.ok x c) (.ok x c)
  | error {e : ParseError} {c : Cursor} : c.Ended → o.Reaches c → Same o n (.error e c) (.error e c)

variable {o : Cursor} {n m : Nat} {α β : Type} {b : Bool} {c : Cursor}

namespace Same
variable {r r' : Result ParseError Cursor α}

theorem eq (h : Same o n r r') : r = r' := by cases h <;> rfl

theorem room {x : α} {c : Cursor} (h : Same o n (.ok x c) r') : c.Room o n := by
  cases h with
  | ok t => exact t

theorem halted {e : ParseError} {c : Cursor} (h : Same o n (.error e c : Result _ _ α) r') :
    c.Ended ∧ o.Reaches c := by
  cases h with
  | error h hr => exact ⟨h, hr⟩

theorem error_at {e : ParseError} (t : c.Room o m) :
    Same o n (.error e c : Result _ _ α) (.error e c) := .error t.ended t.reached

theorem pure {x : α} (t : c.Room o n) :
    Same o n ((pure x : Parser α) b c) ((pure x : Parser α) b c) := .ok t

theorem fail {f : Fault} (t : c.Room o m) :
    Same o n ((Parser.fail f : Parser α) b c) ((Parser.fail f : Parser α) b c) := .error_at t

theorem unexpected {f : TokenKind → Fault} (t : c.Room o m) :
    Same o n ((Parser.unexpected f : Parser α) b c) ((Parser.unexpected f : Parser α) b c) :=
  .error_at t

theorem bind {p p' : Parser α} {f f' : α → Parser β} (hp : Same o n (p b c) (p' b c))
    (hf : ∀ {x c₁}, p b c = .ok x c₁ → c₁.Room o n → Same o m (f x b c₁) (f' x b c₁)) :
    Same o m ((p >>= f) b c) ((p' >>= f') b c) := by
  rw [Parser.bind_apply, Parser.bind_apply]
  generalize hr : p b c = r at hp
  generalize p' b c = r' at hp
  cases hp with
  | ok t => exact hf hr t
  | error h ho => exact .error h ho

theorem get {f f' : Cursor → Parser α} (h : Same o n (f c b c) (f' c b c)) :
    Same o n ((MonadState.get >>= f) b c) ((MonadState.get >>= f') b c) := h

theorem ite {x : Bool} {p p' q q' : Parser α}
    (yes : x = true → Same o n (p b c) (p' b c)) (no : x = false → Same o n (q b c) (q' b c)) :
    Same o n ((if x then p else q) b c) ((if x then p' else q') b c) := by
  cases x with
  | true => exact yes rfl
  | false => exact no rfl

end Same

theorem Cursor.atEnd_of_seesWord {word : String} (h : c.seesWord word = true) :
    c.atEnd = false := by simp [atEnd, kind_of_seesWord h]

theorem Cursor.atEnd_of_isName (h : c.current.kind.isName = true) : c.atEnd = false := by
  cases hk : c.current.kind <;> simp_all [atEnd, TokenKind.isName]

/-- There is no end mark between brackets. -/
theorem Bracket.not_eof_of_run {s s' : List Bracket} {w : List Token} (h : run s w = some s') :
    ∀ t ∈ w, t.kind ≠ .eof := by
  induction w generalizing s with
  | nil => simp
  | cons t w ih =>
    rw [← List.singleton_append, run_append, run_singleton, Option.bind_eq_some_iff] at h
    obtain ⟨s₁, hs, h⟩ := h
    refine List.forall_mem_cons.mpr ⟨?_, ih h⟩
    intro ht
    rw [ht] at hs
    cases hs

theorem Reads.room {s s' : List Bracket} {vs : List Visit} {os : List Outline} {c' : Cursor}
    (h : Reads true s c vs os s' c') (hc : c.Ended) : c'.Room c c.ahead.length := by
  obtain ⟨w, hw, hr, hl, -⟩ := h hc
  have := hw.length
  have := hl rfl
  exact ⟨hw.ended hc, ⟨w, hw, Bracket.not_eof_of_run hr⟩, by omega⟩

namespace Cursor.Room
open ModuleBundler.Parser

theorem start (hc : c.Ended) : c.Room c (c.ahead.length + 1) :=
  ⟨hc, .refl c, Nat.lt_succ_self _⟩

theorem outer (t : c.Room o n) : c.Room o (n + 1) :=
  ⟨t.ended, t.reached, Nat.lt_succ_of_lt t.ahead⟩

theorem next (t : c.Room o (n + 1)) (h : c.atEnd = false) : c.next.Room o n := by
  have hw := Cursor.moves_next t.ended h
  have hl : c.ahead.length = 1 + c.next.ahead.length := hw.length
  have := t.ahead
  exact ⟨hw.ended t.ended, t.reached.trans (.next t.ended h), by omega⟩

theorem within {c' : Cursor} (t : c.Room o n) (h : c'.Room c c.ahead.length) : c'.Room o n :=
  ⟨h.ended, t.reached.trans h.reached, Nat.lt_trans h.ahead t.ahead⟩

theorem advance (t : c.Room o (n + 1)) (h : c.atEnd = false) :
    Same o n (Parser.advance b c) (Parser.advance b c) := .ok (t.next h)

theorem consume {kind : TokenKind} (t : c.Room o (n + 1)) :
    Same o n (Parser.consume kind b c) (Parser.consume kind b c) :=
  .get (.ite (fun h => t.advance (atEnd_of_sees h)) fun _ => .unexpected t)

theorem consumeMark {p : Punctuator} (t : c.Room o (n + 1)) :
    Same o n (Parser.consumeMark p b c) (Parser.consumeMark p b c) :=
  t.consume.bind fun _ t => .pure t

theorem consumeKeyword {w : Keyword} (t : c.Room o (n + 1)) :
    Same o n (Parser.consumeKeyword w b c) (Parser.consumeKeyword w b c) :=
  t.consume.bind fun _ t => .pure t

theorem eat {kind : TokenKind} (t : c.Room o n) :
    Same o n (Parser.eat kind b c) (Parser.eat kind b c) := by
  refine .get (.ite (fun h => ?_) fun _ => .pure t)
  exact (t.outer.advance (atEnd_of_sees h)).bind fun _ t => .pure t

theorem semicolon (t : c.Room o n) : Same o n (Parser.semicolon b c) (Parser.semicolon b c) :=
  t.eat.bind fun _ t => .pure t

theorem ident (t : c.Room o (n + 1)) : Same o n (Parser.ident b c) (Parser.ident b c) :=
  t.consume.bind fun _ t => .pure t

theorem propertyName (t : c.Room o (n + 1)) :
    Same o n (Parser.propertyName b c) (Parser.propertyName b c) := by
  refine .get (.ite (fun h => ?_) fun _ => .unexpected t)
  exact (t.advance (atEnd_of_isName h)).bind fun _ t => .pure t

theorem separator {close : Punctuator} (t : c.Room o n) :
    Same o n (Parser.separator close b c) (Parser.separator close b c) :=
  .get (.ite (fun _ => t.outer.consumeMark) fun _ => .pure t)

theorem spanFrom {start : Span} (t : c.Room o n) :
    Same o n (Parser.spanFrom start b c) (Parser.spanFrom start b c) := .ok t

theorem modifier {word : String} (t : c.Room o n) :
    Same o n (Parser.modifier word b c) (Parser.modifier word b c) := by
  refine .get (.get (.ite (fun h => ?_) fun _ => .pure t))
  have hend := atEnd_of_seesWord (Bool.and_eq_true_iff.mp h).1
  exact (t.outer.advance hend).bind fun _ t => .pure t

theorem modifiers (t : c.Room o n) : Same o n (Parser.modifiers b c) (Parser.modifiers b c) := by
  have hasync : Same o n (Parser.asyncModifier b c) (Parser.asyncModifier b c) :=
    .get (.ite (fun _ => .pure t) fun _ => t.modifier)
  refine hasync.bind fun _ t => t.eat.bind fun _ t => .ite (fun _ => .pure t) fun _ => ?_
  refine t.modifier.bind fun _ t => .ite (fun _ => .pure t) fun _ => ?_
  exact t.modifier.bind fun _ t => .ite (fun _ => .pure t) fun _ => .pure t

end Cursor.Room

/-! ## Reading one place twice -/

/-- After a token that has been read, or that there is room for, there is room. -/
theorem Cursor.Room.following {m : Bool} (t : c.Room o (if m then n else n + 1))
    (h : c.atEnd = false) : c.next.Room o n := by
  cases m with
  | true => exact t.outer.next h
  | false => exact t.next h

/-- One place that is read twice, on the way from the place `o`. -/
def Lockstep.twice (o : Cursor) : Lockstep where
  likeness := .exact
  loses := False
  offset := 0
  At n m _ _ c d := d = c ∧ c.Room o (if m then n else n + 1)
  Err e c e' d := e' = e ∧ d = c ∧ c.Ended ∧ o.Reaches c
  ended h := h.2.ended
  room {n m _ _ c _} h := by
    have hahead := h.2.ahead
    cases m with
    | true => exact hahead
    | false => exact Nat.le_of_lt_succ hahead
  ahead_length h := by rw [h.1]; rfl
  weaken {_ m _ _ _ _} h := by
    cases m with
    | true => exact h
    | false => exact ⟨h.1, h.2.outer⟩
  inner h := h
  outer h := ⟨h.1, h.2.outer⟩
  next h hend _ := ⟨by rw [h.1], h.2.following hend⟩
  next_apart h hend _ _ := ⟨by rw [h.1], h.2.following hend⟩
  previous_next h hend := by
    rw [h.1]
    exact Cursor.previous_next h.2.ended hend
  view h := .inl (by rw [h.1]; exact ⟨rfl, rfl, fun _ => rfl, rfl⟩)
  text h ht := by
    rw [h.1]
    exact ⟨ht, rfl⟩
  second h _ _ := .inl (by rw [h.1]; exact ⟨rfl, rfl⟩)
  previous h := by
    rw [h.1]
    rfl
  fault h _ := by
    rw [h.1]
    exact ⟨rfl, rfl, h.2.ended, h.2.reached⟩
  importFault {_ _ _ _ c _} h hk := by
    have hend : c.atEnd = false := by simp [Cursor.atEnd, hk]
    rw [h.1]
    exact ⟨rfl, rfl, (Cursor.moves_next h.2.ended hend).ended h.2.ended,
      h.2.reached.trans (.next h.2.ended hend)⟩

namespace Cursor.Room
variable {a : Bool}

/-- A place that has been reached, with any brackets open. -/
theorem fresh (t : c.Room o (n + 1)) (s : List Bracket) :
    (Lockstep.twice o).At n false true s c c := ⟨rfl, t⟩

theorem moved (t : c.Room o n) (s : List Bracket) : (Lockstep.twice o).At n true true s c c :=
  ⟨rfl, t⟩

end Cursor.Room

theorem Lockstep.Ends.same [Likened α] {lost : Prop} {a : Bool} {s : List Bracket}
    {r r' : Result ParseError Cursor α} (h : (Lockstep.twice o).Ends lost n true a s r r') :
    Same o n r r' := by
  cases h with
  | ok h t =>
    obtain ⟨rfl, t⟩ := t
    obtain rfl := Likened.eq_of_exact h
    exact .ok t
  | error h =>
    obtain ⟨rfl, rfl, h, ho⟩ := h
    exact .error h ho
  | lost h => exact h.elim

/-- What is read outside of all brackets. -/
theorem Lockstep.Ends.alone [Likened α] {a : Bool} {s : List Bracket}
    {r r' : Result ParseError Cursor α}
    (h : (Lockstep.twice o).Ends (([] : List Bracket) = []) n true a s r r') : Same o n r r' :=
  h.same

namespace Grammar

theorem targets_twice (o : Cursor) (g : Grammar) : (Lockstep.twice o).Targets g := by
  intro n b m a m' a' s s' c d c₁ d₁ x x' e e' _ _ t hx he he'
  obtain rfl := hx
  obtain rfl : e = e' := Except.error.inj (he.symm.trans he')
  exact ⟨rfl, t.1, t.2.ended, t.2.reached⟩

/-- The readers of parts read the same from all places with fewer than `n` tokens left. -/
def SameWithin (n : Nat) (g g' : Grammar) : Prop := ∀ o, (Lockstep.twice o).Parts n g g'

theorem same_iterate {k k' : Nat} (g g' : Grammar) (hk : n ≤ k) (hk' : n ≤ k') :
    SameWithin n (step^[k] g) (step^[k'] g') := fun o =>
  Lockstep.parts_iterate (fun _ => targets_twice o _) (fun h => h.elim) hk hk'

theorem same_nested {k k' : Nat} (hk : n ≤ k) (hk' : n ≤ k') :
    SameWithin n (nested k) (nested k') := fun o =>
  Lockstep.parts_nested (fun _ => targets_twice o _) hk hk'

theorem same_self (n k : Nat) : SameWithin n (nested k) (nested k) := fun o =>
  Lockstep.parts_self (fun _ => targets_twice o _) n k

end Grammar

namespace Cursor

theorem ended_next (hc : c.Ended) (h : c.atEnd = false) : c.next.Ended :=
  (moves_next hc h).ended hc

theorem room_next (hc : c.Ended) (h : c.atEnd = false) : c.next.Room c c.ahead.length :=
  Room.next (.start hc) h

theorem next_of_atEnd (h : c.atEnd = true) : c.next = c := by
  rw [next]
  split
  · rfl
  · rw [if_pos h]

theorem ended_skip {previous current : Token} {ts : List Token}
    (h : (⟨previous, current, ts⟩ : Cursor).Ended) : (skip previous current ts).Ended := by
  fun_induction skip previous current ts with
  | case1 | case2 => exact h
  | case3 previous current t ts c hc ih =>
    refine ih ?_
    rw [Ended, List.getLast?_cons_cons] at h
    exact h

theorem ended_afterError (hc : c.Ended) : c.afterError.Ended := by
  refine ended_skip ?_
  cases h : c.atEnd with
  | false => exact ended_next hc h
  | true =>
    rw [next_of_atEnd h]
    exact hc

end Cursor

/-- Grammars that read parts the same read the same items, with the same errors between them. -/
theorem Grammar.items_congr {g g' : Grammar} (hc : c.Ended)
    (h : ∀ n ≤ c.ahead.length, SameWithin n g g') : g.items c = g'.items c := by
  have same {c : Cursor} (hc : c.Ended) (h : ∀ n ≤ c.ahead.length, SameWithin n g g') :
      Same c c.ahead.length (g.item true c) (g'.item true c) :=
    ((h _ (Nat.le_refl _) c).item (Cursor.Room.start hc |>.fresh []) fun h => h.loses).same
  fun_induction Grammar.items g c with
  | case1 c hend => rw [Grammar.items.eq_def g', if_pos hend]
  | case2 c hend i c₁ hi hl rest ih =>
    have h' := same hc h
    rw [hi] at h'
    rw [Grammar.items.eq_def g', if_neg hend, ← h'.eq]
    dsimp only
    rw [if_pos hl, ← ih h'.room.ended fun n hn => h n (by omega)]
  | case3 c hend i c₁ hi hl =>
    have h' := same hc h
    rw [hi] at h'
    exact absurd h'.room.ahead hl
  | case4 c hend e c₁ hi hl rest ih =>
    have h' := same hc h
    rw [hi] at h'
    rw [Grammar.items.eq_def g', if_neg hend, ← h'.eq]
    dsimp only
    rw [if_pos hl, ← ih (Cursor.ended_afterError h'.halted.1) fun n hn => h n (by omega)]
  | case5 c hend e c₁ hi hl =>
    have h' := same hc h
    rw [hi] at h'
    rw [Grammar.items.eq_def g', if_neg hend, ← h'.eq]
    dsimp only
    rw [if_neg hl]

/-- Any two bounds that are no less than the number of tokens give the same items, with the same
errors between them. -/
theorem Grammar.items_nested {k k' : Nat} (hc : c.Ended) (hk : c.ahead.length ≤ k)
    (hk' : c.ahead.length ≤ k') : (nested k).items c = (nested k').items c :=
  items_congr hc fun _ hn => same_nested (Nat.le_trans hn hk) (Nat.le_trans hn hk')

end ModuleBundler
