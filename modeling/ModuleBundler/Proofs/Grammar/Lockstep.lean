import ModuleBundler.Proofs.Grammar.ReadingStatement
import ModuleBundler.Proofs.Tree.Likeness

/-! Reading two lists of tokens side by side. What two places must have in common for the readers
to do the same at them is stated once; that the readers then do the same is proved once for each of
them, and holds for all pairs of readings that keep such a relation. -/
namespace ModuleBundler
open EStateM (Result)

/-! ## What two places have in common -/

/-- The token may come after the end of a script that stands inside another one. -/
def TokenKind.follows : TokenKind → Bool
  | .punct .rBrace | .keyword .returnKw | .keyword .varKw => true
  | _ => false

/-- The token is no fixed text and comes after no script. -/
def TokenKind.steady (kind : TokenKind) : Bool := !kind.follows && !kind.isText

/-- The token opens no parenthesis, is no fixed text and comes after no script. -/
def TokenKind.light (kind : TokenKind) : Bool := kind.steady && kind != .punct .lParen

theorem TokenKind.steady_of_light {kind : TokenKind} (h : kind.light = true) :
    kind.steady = true := (Bool.and_eq_true_iff.mp h).1

theorem TokenKind.ne_lParen_of_light {kind : TokenKind} (h : kind.light = true) :
    kind ≠ .punct .lParen := by simpa using (Bool.and_eq_true_iff.mp h).2

/-- The expression that a fixed text is. -/
def Token.textForm (t : Token) : ExprForm :=
  if t.kind = .stringLiteral then .string t.value else .template [t.value] []

/-- The fault at a place, which names the next token; what is wrong with its text goes first. -/
def Cursor.fault (c : Cursor) (f : TokenKind → Fault) : ParseError :=
  ⟨if c.current.kind = .error then .badToken c.current.value else f c.current.kind,
    c.current.span⟩

/-- Two places go on with the same token, perhaps but for the line before it. -/
structure Cursor.Matches (k : Likeness) (m : Bool) (c d : Cursor) : Prop where
  kind : d.current.kind = c.current.kind
  value : d.current.value = c.current.value
  newline : m = true → d.current.newlineBefore = c.current.newlineBefore
  span : k.Like c.current.span d.current.span

/-- A text in parentheses, and at the other place the string that answers it. -/
structure Cursor.Answered (k : Likeness) (c d : Cursor) : Prop where
  text : c.current.kind.isText = true
  answer : d.current.kind = .stringLiteral
  newline : d.current.newlineBefore = c.current.newlineBefore
  span : k.Like c.current.span d.current.span

/-- A script is at its end, and at the other place there is what follows it there. -/
structure Cursor.Stopped (loses : Prop) (s : List Bracket) (c d : Cursor) : Prop where
  loses : loses
  closed : s = []
  ended : c.atEnd = true
  follows : d.current.kind.follows = true
  newline : d.current.newlineBefore = true

/-- The token after the next one ends a script, and at the other place there is what follows the
script there. -/
structure Cursor.StopsNext (s : List Bracket) (c d : Cursor) : Prop where
  closed : Bracket.step s c.current.kind = some []
  ended : c.secondKind? = some .eof
  follows : ∃ kind, d.secondKind? = some kind ∧ kind.follows = true
  newline : d.newlineBeforeSecond = true

/-- The token after the next one is the one that comes next. -/
theorem Cursor.next_kind {c : Cursor} {kind : TokenKind} (h : c.atEnd = false)
    (hs : c.secondKind? = some kind) : c.next.current.kind = kind := by
  obtain ⟨previous, current, ahead⟩ := c
  cases ahead with
  | nil => cases hs
  | cons u us =>
    rw [Cursor.next, h]
    exact Option.some.inj hs

/-- A relation between places that two readings keep while they read the same. -/
structure Lockstep where
  /-- How alike the parts are that they put together. -/
  likeness : Likeness
  /-- The first script may end before the second one, where its errors do not matter. -/
  loses : Prop
  /-- So many tokens more are left in the second list. -/
  offset : Nat
  /-- The two places correspond. There are fewer tokens left than a bound, and one less if the
  first flag says that a token has been read. The second flag says that the next token is no
  argument of a call. The brackets are those that are open. -/
  At : Nat → Bool → Bool → List Bracket → Cursor → Cursor → Prop
  /-- The two errors with the places where they come up correspond. -/
  Err : ParseError → Cursor → ParseError → Cursor → Prop
  ended {n m a s c d} : At n m a s c d → c.Ended
  room {n m a s c d} : At n m a s c d → c.ahead.length + m.toNat ≤ n
  ahead_length {n m a s c d} : At n m a s c d → d.ahead.length = c.ahead.length + offset
  weaken {n m a s c d} : At n true true s c d → At n m a s c d
  /-- A token that has been read makes room for the parts that come next. -/
  inner {n a s c d} : At (n + 1) true a s c d → At n false a s c d
  outer {n a s c d} : At n true a s c d → At (n + 1) true a s c d
  next {n m a s s' c d} : At n m a s c d → c.atEnd = false →
    Bracket.step s c.current.kind = some s' → At n true false s' c.next d.next
  next_apart {n m a s s' c d} : At n m a s c d → c.atEnd = false →
    Bracket.step s c.current.kind = some s' → c.current.kind ≠ .punct .lParen →
    At n true true s' c.next d.next
  previous_next {n m a s c d} : At n m a s c d → c.atEnd = false → d.next.previous = d.current
  view {n m a s c d} : At n m a s c d →
    c.Matches likeness m d ∨ (a = false ∧ c.Answered likeness d) ∨ c.Stopped loses s d
  text {n m a s c d} : At n m a s c d → c.current.kind.isText = true →
    d.current.kind.isText = true ∧ likeness.Like
      (⟨c.current.span, c.current.textForm⟩ : Expr) ⟨d.current.span, d.current.textForm⟩
  second {n m a s c d} : At n m a s c d → c.atEnd = false → c.current.kind ≠ .punct .lParen →
    (d.secondKind? = c.secondKind? ∧ d.newlineBeforeSecond = c.newlineBeforeSecond) ∨
      c.StopsNext s d
  previous {n a s c d} : At n true a s c d → likeness.Like c.previous.span d.previous.span
  fault {n m a s c d} : At n m a s c d → ∀ f, Err (c.fault f) c (d.fault f) d
  importFault {n m a s c d} : At n m a s c d → c.current.kind = .keyword .importKw →
    Err ⟨.dynamicImport, c.current.span.merge c.next.current.span⟩ c.next
      ⟨.dynamicImport, d.current.span.merge d.next.current.span⟩ d.next

namespace Lockstep
variable {L : Lockstep} {lost : Prop} {n : Nat} {m a m' a' : Bool} {s s' s'' : List Bracket}
  {c d : Cursor}

/-! ## What the readers look at -/

namespace At

theorem ahead_lt_iff {c₁ d₁ : Cursor} (t : L.At n m a s c d) (t₁ : L.At n m' a' s' c₁ d₁) :
    d₁.ahead.length < d.ahead.length ↔ c₁.ahead.length < c.ahead.length := by
  rw [L.ahead_length t, L.ahead_length t₁]
  omega

theorem not_stopped (h : c.atEnd = false) : ¬ c.Stopped L.loses s d := by
  intro hs
  rw [hs.ended] at h
  cases h

/-- Between brackets a script is not at its end. -/
theorem not_stopped_inside {b : Bracket} : ¬ c.Stopped L.loses (b :: s) d :=
  fun h => nomatch h.closed

/-- Where the next token is no argument it is the same, unless the script is at its end. -/
theorem same (t : L.At n m true s c d) (h : ¬ c.Stopped L.loses s d) :
    c.Matches L.likeness m d := by
  rcases L.view t with hs | ⟨hs, -⟩ | hs
  · exact hs
  · cases hs
  · contradiction

theorem span (t : L.At n m a s c d) (h : ¬ c.Stopped L.loses s d) :
    L.likeness.Like c.current.span d.current.span := by
  rcases L.view t with hs | ⟨-, hs⟩ | hs
  · exact hs.span
  · exact hs.span
  · contradiction

theorem newlineBefore (t : L.At n true a s c d) (h : c.atEnd = false) :
    d.current.newlineBefore = c.current.newlineBefore := by
  rcases L.view t with hs | ⟨-, hs⟩ | hs
  · exact hs.newline rfl
  · exact hs.newline
  · exact (not_stopped h hs).elim

theorem kind_iff (t : L.At n m a s c d) {kind : TokenKind} (hk : kind.steady = true)
    (he : kind ≠ .eof) : d.current.kind = kind ↔ c.current.kind = kind := by
  simp only [TokenKind.steady, Bool.and_eq_true, Bool.not_eq_true'] at hk
  rcases L.view t with h | ⟨-, h⟩ | h
  · rw [h.kind]
  · constructor
    · intro hd
      rw [← hd, h.answer] at hk
      cases hk.2
    · intro hc
      rw [← hc, h.text] at hk
      cases hk.2
  · constructor
    · intro hd
      rw [← hd, h.follows] at hk
      cases hk.1
    · intro hc
      have hend : c.current.kind = .eof := by simpa [Cursor.atEnd] using h.ended
      exact absurd (hc.symm.trans hend) he

theorem sees_iff {kind : TokenKind} : c.sees kind = true ↔ kind ≠ .eof ∧ c.current.kind = kind := by
  simp only [Cursor.sees, Cursor.atEnd, Bool.and_eq_true, Bool.not_eq_true', beq_eq_false_iff_ne,
    beq_iff_eq]
  constructor
  · rintro ⟨h, rfl⟩
    exact ⟨h, rfl⟩
  · rintro ⟨h, rfl⟩
    exact ⟨h, rfl⟩

/-- Tests for a token that is no text and comes after no script. -/
theorem sees (t : L.At n m a s c d) {kind : TokenKind} (hk : kind.steady = true) :
    d.sees kind = c.sees kind := by
  rw [Bool.eq_iff_iff, sees_iff, sees_iff]
  exact and_congr_right fun he => t.kind_iff hk he

theorem sees_same {k : Likeness} (h : c.Matches k m d) (kind : TokenKind) :
    d.sees kind = c.sees kind := by rw [Bool.eq_iff_iff, sees_iff, sees_iff, h.kind]

theorem atEnd_same {k : Likeness} (h : c.Matches k m d) : d.atEnd = c.atEnd := by
  rw [Cursor.atEnd, Cursor.atEnd, h.kind]

/-- Tests for a text, where the next token is no argument. -/
theorem sees_apart (t : L.At n m true s c d) {kind : TokenKind} (hk : kind.follows = false) :
    d.sees kind = c.sees kind := by
  rcases L.view t with h | ⟨h, -⟩ | h
  · exact sees_same h kind
  · cases h
  rw [Bool.eq_iff_iff, sees_iff, sees_iff]
  refine and_congr_right fun he => ⟨fun hd => ?_, fun hc => ?_⟩
  · rw [← hd, h.follows] at hk
    cases hk
  · have hend : c.current.kind = .eof := by simpa [Cursor.atEnd] using h.ended
    exact absurd (hc.symm.trans hend) he

/-- Between brackets all tests have the same outcome, except for texts. -/
theorem sees_inside {b : Bracket} (t : L.At n m a (b :: s) c d) {kind : TokenKind}
    (hk : kind.isText = false) : d.sees kind = c.sees kind := by
  rcases L.view t with h | ⟨-, h⟩ | h
  · exact sees_same h kind
  · rw [Bool.eq_iff_iff, sees_iff, sees_iff]
    refine and_congr_right fun _ => ⟨fun hd => ?_, fun hc => ?_⟩
    · rw [← hd, h.answer] at hk
      cases hk
    · rw [← hc, h.text] at hk
      cases hk
  · exact (not_stopped_inside h).elim

theorem atEnd_inside {b : Bracket} (t : L.At n m a (b :: s) c d) : d.atEnd = c.atEnd := by
  rcases L.view t with h | ⟨-, h⟩ | h
  · exact atEnd_same h
  · rw [Cursor.atEnd, Cursor.atEnd, h.answer]
    have ht := h.text
    generalize c.current.kind = kind at ht
    cases kind <;> first | rfl | cases ht
  · exact (not_stopped_inside h).elim

theorem seesWord (t : L.At n m a s c d) (word : String) : d.seesWord word = c.seesWord word := by
  have hk : d.current.kind = .identifier ↔ c.current.kind = .identifier :=
    t.kind_iff rfl (by rintro ⟨⟩)
  rcases L.view t with h | ⟨-, h⟩ | h
  · rw [Cursor.seesWord, Cursor.seesWord, h.kind, h.value]
  all_goals
    have hc : c.current.kind ≠ .identifier := by
      intro hc
      first
      | have ht := h.text; rw [hc] at ht; cases ht
      | have he := h.ended; rw [Cursor.atEnd, hc] at he; cases he
    rw [Cursor.seesWord, Cursor.seesWord, beq_false_of_ne hc, beq_false_of_ne (mt hk.mp hc)]
    rfl

/-- After a token that leaves a bracket open both scripts go on with the same token. -/
theorem second_inside {b : Bracket} (t : L.At n m a s c d) (h : c.atEnd = false)
    (hp : c.current.kind ≠ .punct .lParen)
    (hs : Bracket.step s c.current.kind = some (b :: s')) :
    d.secondKind? = c.secondKind? ∧ d.newlineBeforeSecond = c.newlineBeforeSecond := by
  rcases L.second t h hp with h | h
  · exact h
  · rw [h.closed] at hs
    cases hs

/-- Tests for the token after the next one. -/
theorem second_iff (t : L.At n m a s c d) (h : c.atEnd = false)
    (hp : c.current.kind ≠ .punct .lParen) {kind : TokenKind} (hk : kind.follows = false)
    (he : kind ≠ .eof) : d.secondKind? = some kind ↔ c.secondKind? = some kind := by
  rcases L.second t h hp with ⟨h, -⟩ | h
  · rw [h]
  obtain ⟨kind', hd, hf⟩ := h.follows
  rw [hd, h.ended, Option.some.injEq, Option.some.injEq]
  refine ⟨fun h => ?_, fun h => absurd h.symm he⟩
  rw [← h, hf] at hk
  cases hk

end At

/-! ## Outcomes -/

/-- Two outcomes correspond: two parts that are alike, read up to corresponding places, or two
errors. An error of the first script may be lost. -/
inductive Ends (L : Lockstep) (lost : Prop) (n : Nat) (m a : Bool) (s : List Bracket)
    {α : Type} [Likened α] : Result ParseError Cursor α → Result ParseError Cursor α → Prop where
  | ok {x y : α} {c d : Cursor} : L.likeness.Like x y → L.At n m a s c d →
    Ends L lost n m a s (.ok x c) (.ok y d)
  | error {e e' : ParseError} {c d : Cursor} : L.Err e c e' d →
    Ends L lost n m a s (.error e c) (.error e' d)
  | lost {e : ParseError} {c : Cursor} {r : Result ParseError Cursor α} : L.loses → lost →
    Ends L lost n m a s (.error e c) r

namespace Ends
variable {α β : Type} {b : Bool}

section Likened
variable [Likened α] [Likened β] {r r' : Result ParseError Cursor α}

theorem pure {x y : α} (h : L.likeness.Like x y) (t : L.At n m a s c d) :
    L.Ends lost n m a s ((pure x : Parser α) b c) ((pure y : Parser α) b d) := .ok h t

theorem unexpected {f : TokenKind → Fault} (t : L.At n m' a' s' c d) :
    L.Ends lost n m a s ((Parser.unexpected f : Parser α) b c)
      ((Parser.unexpected f : Parser α) b d) := .error (L.fault t f)

theorem fail {f : Fault} (t : L.At n m' a' s' c d) :
    L.Ends lost n m a s ((Parser.fail f : Parser α) b c) ((Parser.fail f : Parser α) b d) :=
  .error (L.fault t fun _ => f)

theorem weaken (h : L.Ends lost n true true s r r') : L.Ends lost n m a s r r' := by
  cases h with
  | ok h t => exact .ok h (L.weaken t)
  | error h => exact .error h
  | lost h h' => exact .lost h h'

theorem outer (h : L.Ends lost n true a s r r') : L.Ends lost (n + 1) true a s r r' := by
  cases h with
  | ok h t => exact .ok h (L.outer t)
  | error h => exact .error h
  | lost h h' => exact .lost h h'

/-- Between brackets no error is lost. -/
theorem inside {bracket : Bracket} {u : List Bracket}
    (h : L.Ends (bracket :: u = []) n m a s r r') : L.Ends lost n m a s r r' := by
  cases h with
  | ok h t => exact .ok h t
  | error h => exact .error h
  | lost _ h => cases h

/-- Composed readers correspond if their parts do, one after the other. -/
theorem bind {p p' : Parser α} {f f' : α → Parser β}
    (hp : L.Ends lost n m a s (p b c) (p' b d))
    (hf : ∀ {x y c₁ d₁}, p b c = .ok x c₁ → L.likeness.Like x y → L.At n m a s c₁ d₁ →
      L.Ends lost n m' a' s' (f x b c₁) (f' y b d₁)) :
    L.Ends lost n m' a' s' ((p >>= f) b c) ((p' >>= f') b d) := by
  rw [Parser.bind_apply, Parser.bind_apply]
  generalize hr : p b c = r at hp
  generalize p' b d = r' at hp
  cases hp with
  | ok h t => exact hf hr h t
  | error h => exact .error h
  | lost h h' => exact .lost h h'

theorem map {p p' : Parser α} {f f' : α → β} (hp : L.Ends lost n m a s (p b c) (p' b d))
    (hf : ∀ {x y}, L.likeness.Like x y → L.likeness.Like (f x) (f' y)) :
    L.Ends lost n m a s ((f <$> p) b c) ((f' <$> p') b d) := by
  rw [← bind_pure_comp, ← bind_pure_comp]
  exact hp.bind fun _ h t => .pure (hf h) t

theorem get {f f' : Cursor → Parser α} (h : L.Ends lost n m a s (f c b c) (f' d b d)) :
    L.Ends lost n m a s ((MonadState.get >>= f) b c) ((MonadState.get >>= f') b d) := h

theorem here {f f' : Span → Parser α}
    (h : L.Ends lost n m a s (f c.current.span b c) (f' d.current.span b d)) :
    L.Ends lost n m a s ((Parser.here >>= f) b c) ((Parser.here >>= f') b d) := h

theorem ite {p p' q q' : Parser α} {x x' : Bool} (h : x' = x)
    (yes : x = true → L.Ends lost n m a s (p b c) (p' b d))
    (no : x = false → L.Ends lost n m a s (q b c) (q' b d)) :
    L.Ends lost n m a s ((if x then p else q) b c) ((if x' then p' else q') b d) := by
  subst h
  cases x' with
  | true => exact yes rfl
  | false => exact no rfl

/-- At the end of a script a reader that needs a token fails. -/
theorem of_stopped {p : Parser α} {r : Result ParseError Cursor α}
    (h : c.Stopped L.loses s d) (hc : c.Ended)
    (takes : ∀ {x c'}, p b c = .ok x c' → ∃ vs os, Takes true c vs os c') :
    L.Ends (s = []) n m a s' (p b c) r := by
  cases hp : p b c with
  | error e c' => exact .lost h.loses h.closed
  | ok x c' =>
    obtain ⟨_, _, h'⟩ := takes hp
    obtain ⟨w, hw, hr, hl, -⟩ := h' hc
    cases w with
    | nil => cases hl rfl
    | cons u w =>
      have hk : c.current.kind = .eof := by simpa [Cursor.atEnd] using h.ended
      obtain ⟨rfl, -⟩ := List.cons.inj hw.tokens
      rw [← List.singleton_append, Bracket.run_append, Bracket.run_singleton, hk] at hr
      cases hr

end Likened

theorem bindPlain [HasBare α] [Plain α] [Likened β] {p p' : Parser α} {f f' : α → Parser β}
    (hp : L.Ends lost n m a s (p b c) (p' b d))
    (hf : ∀ {x c₁ d₁}, p b c = .ok x c₁ → L.At n m a s c₁ d₁ →
      L.Ends lost n m' a' s' (f x b c₁) (f' x b d₁)) :
    L.Ends lost n m' a' s' ((p >>= f) b c) ((p' >>= f') b d) := by
  refine hp.bind fun hr h t => ?_
  rw [← h.eq]
  exact hf hr t

end Ends

/-! ## Tokens, names and lists -/

namespace At
variable {α β : Type} {b : Bool} [Likened α]
open ModuleBundler.Parser

/-- The next token, which opens no parenthesis, is read on both sides. -/
theorem advance {f f' : Token → Parser α} (t : L.At n m a s c d) (h : c.atEnd = false)
    (hs : Bracket.step s c.current.kind = some s') (hp : c.current.kind ≠ .punct .lParen)
    (hf : L.At n true true s' c.next d.next →
      L.Ends lost n m' a' s'' (f c.current b c.next) (f' d.current b d.next)) :
    L.Ends lost n m' a' s'' ((Parser.advance >>= f) b c) ((Parser.advance >>= f') b d) := by
  have hc : (Parser.advance >>= f) b c = f c.next.previous b c.next := rfl
  have hd : (Parser.advance >>= f') b d = f' d.next.previous b d.next := rfl
  rw [hc, hd, Cursor.previous_next (L.ended t) h, L.previous_next t h]
  exact hf (L.next_apart t h hs hp)

theorem eat_apply (kind : TokenKind) (c : Cursor) : Parser.eat kind b c
    = if c.sees kind then .ok true c.next else .ok false c := by
  cases hc : c.sees kind with
  | true => exact eat_of_sees hc
  | false => exact eat_of_not_sees hc

/-- A token that comes after no script is read on both sides or on none. -/
theorem eat {kind : TokenKind} {f f' : Bool → Parser α} (t : L.At n m a s c d)
    (hk : kind.light = true) (hs : Bracket.step s kind = some s')
    (yes : L.At n true true s' c.next d.next →
      L.Ends lost n m' a' s'' (f true b c.next) (f' true b d.next))
    (no : c.sees kind = false → L.Ends lost n m' a' s'' (f false b c) (f' false b d)) :
    L.Ends lost n m' a' s'' ((Parser.eat kind >>= f) b c) ((Parser.eat kind >>= f') b d) := by
  rw [Parser.bind_apply, Parser.bind_apply, eat_apply, eat_apply,
    t.sees (TokenKind.steady_of_light hk)]
  cases hc : c.sees kind with
  | true =>
    refine yes (L.next_apart t (Cursor.atEnd_of_sees hc) ?_ ?_)
    · rw [Cursor.kind_of_sees hc, hs]
    · rw [Cursor.kind_of_sees hc]
      exact TokenKind.ne_lParen_of_light hk
  | false => exact no hc

/-- A parenthesis is opened on both sides or on none. -/
theorem eatParen {f f' : Bool → Parser α} (t : L.At n m a s c d)
    (yes : L.At n true false (.paren :: s) c.next d.next →
      L.Ends lost n m' a' s' (f true b c.next) (f' true b d.next))
    (no : L.Ends lost n m' a' s' (f false b c) (f' false b d)) :
    L.Ends lost n m' a' s' ((Parser.eatMark .lParen >>= f) b c)
      ((Parser.eatMark .lParen >>= f') b d) := by
  rw [Parser.bind_apply, Parser.bind_apply, Parser.eatMark, eat_apply, eat_apply, t.sees rfl]
  cases hc : c.sees (.punct .lParen) with
  | true =>
    refine yes (L.next t (Cursor.atEnd_of_sees hc) ?_)
    rw [Cursor.kind_of_sees hc]
    rfl
  | false => exact no

/-- A token that neither opens nor closes a bracket may be left out. -/
theorem eat? {kind : TokenKind} (t : L.At n m a s c d) (hk : kind.light = true)
    (hs : Bracket.Neutral kind) :
    L.Ends lost n m a s (Parser.eat kind b c) (Parser.eat kind b d) := by
  have h : L.Ends lost n m a s ((Parser.eat kind >>= pure) b c) ((Parser.eat kind >>= pure) b d) :=
    t.eat hk (hs s) (fun t => .ok .plain (L.weaken t))
      fun _ => .ok .plain t
  simpa using h

theorem eatWord (t : L.At n m a s c d) (word : String) :
    L.Ends lost n m a s (Parser.eatWord word b c) (Parser.eatWord word b d) := by
  refine .get (.ite (t.seesWord word) (fun hw => ?_) fun _ => .pure .plain t)
  have hk := Cursor.kind_of_seesWord hw
  refine t.advance (by simp [Cursor.atEnd, hk]) (by rw [hk]; rfl) (by simp [hk]) fun t => ?_
  exact .pure .plain (L.weaken t)

theorem consume_apply {β : Type} (kind : TokenKind) (f : Token → Parser β) (c : Cursor) :
    (Parser.consume kind >>= f) b c
      = (if c.sees kind then Parser.advance >>= f
        else Parser.unexpected (.expectedToken kind) >>= f) b c := by
  have hc : Parser.consume kind b c = (if c.sees kind then Parser.advance
      else Parser.unexpected (.expectedToken kind)) b c := rfl
  rw [Parser.bind_apply, hc]
  cases c.sees kind with
  | true => rw [if_pos rfl, if_pos rfl, Parser.bind_apply]
  | false => rw [if_neg Bool.false_ne_true, if_neg Bool.false_ne_true, Parser.bind_apply]

theorem consume {kind : TokenKind} {f f' : Token → Parser α} (t : L.At n m a s c d)
    (hsees : d.sees kind = c.sees kind) (hs : Bracket.step s kind = some s')
    (hp : kind ≠ .punct .lParen)
    (hf : c.sees kind = true → L.At n true true s' c.next d.next →
      L.Ends lost n m' a' s'' (f c.current b c.next) (f' d.current b d.next)) :
    L.Ends lost n m' a' s'' ((Parser.consume kind >>= f) b c)
      ((Parser.consume kind >>= f') b d) := by
  rw [consume_apply, consume_apply]
  refine .ite hsees (fun hc => ?_) fun _ => .error (L.fault t (.expectedToken kind))
  refine t.advance (Cursor.atEnd_of_sees hc) ?_ ?_ (hf hc)
  all_goals rwa [Cursor.kind_of_sees hc]

/-- A mark that may come after a script is read only where a bracket is open. -/
theorem sees_mark {p : Punctuator} (t : L.At n m a s c d)
    (hs : Bracket.step s (.punct p) = some s') : d.sees (.punct p) = c.sees (.punct p) := by
  cases hf : TokenKind.follows (.punct p) with
  | false => exact t.sees (by simp [TokenKind.steady, hf, TokenKind.isText])
  | true =>
    cases s with
    | nil =>
      obtain rfl : p = .rBrace := by cases p <;> first | rfl | cases hf
      cases hs
    | cons bracket u => exact t.sees_inside rfl

theorem consumeMark {p : Punctuator} (t : L.At n m a s c d)
    (hs : Bracket.step s (.punct p) = some s') (hp : (p == .lParen) = false) :
    L.Ends lost n true true s' (Parser.consumeMark p b c) (Parser.consumeMark p b d) :=
  t.consume (t.sees_mark hs) hs (by simpa using hp) fun _ t =>
    .pure .plain t

theorem consumeParen (t : L.At n m a s c d) :
    L.Ends lost n true false (.paren :: s) (Parser.consumeMark .lParen b c)
      (Parser.consumeMark .lParen b d) := by
  rw [Parser.consumeMark, consume_apply, consume_apply]
  refine .ite (t.sees rfl) (fun hc => ?_) fun _ => .error (L.fault t (.expectedToken _))
  refine .ok .plain (L.next t (Cursor.atEnd_of_sees hc) ?_)
  rw [Cursor.kind_of_sees hc]
  rfl

theorem consumeKeyword {w : Keyword} (t : L.At n m a s c d)
    (hw : TokenKind.steady (.keyword w) = true) :
    L.Ends lost n true true s (Parser.consumeKeyword w b c) (Parser.consumeKeyword w b d) :=
  t.consume (t.sees hw) rfl (by rintro ⟨⟩) fun _ t => .pure .plain t

theorem consumeWord (t : L.At n m a s c d) (word : String) :
    L.Ends lost n m a s (Parser.consumeWord word b c) (Parser.consumeWord word b d) := by
  refine (t.eatWord word).bindPlain fun _ t => .ite rfl (fun _ => .unexpected t) fun _ => ?_
  exact .pure .plain t

theorem semicolon (t : L.At n m a s c d) :
    L.Ends lost n m a s (Parser.semicolon b c) (Parser.semicolon b d) :=
  Ends.bind (t.eat? rfl fun _ => rfl) fun _ _ t => .pure .plain t

/-- A name is read alike; it has no literals in it. -/
theorem like_ident {v v' : String} {sp sp' : Span} (hv : v' = v) (hs : L.likeness.Like sp sp') :
    L.likeness.Like (⟨v, sp⟩ : Ident) ⟨v', sp'⟩ := by
  subst hv
  exact hs.map (Ident.mk v') fun _ _ => rfl

theorem value (t : L.At n m a s c d) (h : c.atEnd = false) (ht : c.current.kind.isText = false) :
    d.current.value = c.current.value := by
  rcases L.view t with hs | ⟨-, hs⟩ | hs
  · exact hs.value
  · rw [hs.text] at ht
    cases ht
  · exact (not_stopped h hs).elim

theorem ident (t : L.At n m a s c d) :
    L.Ends lost n true true s (Parser.ident b c) (Parser.ident b d) := by
  refine t.consume (t.sees rfl) rfl (by rintro ⟨⟩) fun hc t' => .pure ?_ t'
  have hend := Cursor.atEnd_of_sees hc
  refine like_ident (t.value hend ?_) (t.span (not_stopped hend))
  rw [Cursor.kind_of_sees hc]
  rfl

/-- The first token of what follows a script may name a property. -/
theorem propertyName (t : L.At n m a s c d) :
    L.Ends (s = []) n true true s (Parser.propertyName b c) (Parser.propertyName b d) := by
  have hname : d.current.kind.isName = c.current.kind.isName ∨ c.Stopped L.loses s d := by
    rcases L.view t with h | ⟨-, h⟩ | h
    · exact .inl (by rw [h.kind])
    · refine .inl ?_
      have ht := h.text
      rw [h.answer]
      generalize c.current.kind = kind at ht
      cases kind <;> first | rfl | cases ht
    · exact .inr h
  rcases hname with hname | h
  · refine .get (.ite hname (fun hn => ?_) fun _ => .unexpected t)
    have hend : c.atEnd = false := by
      cases h : c.current.kind <;> simp_all [TokenKind.isName, Cursor.atEnd]
    have ht : c.current.kind.isText = false := by
      cases h : c.current.kind <;> simp_all [TokenKind.isName, TokenKind.isText]
    refine t.advance hend (Bracket.Neutral.of_isName hn s) ?_ fun t' => .pure ?_ t'
    · intro h
      rw [h] at hn
      cases hn
    · exact like_ident (t.value hend ht) (t.span (not_stopped hend))
  · exact .of_stopped h (L.ended t) fun h => ⟨_, _, (propertyName_fills h).takes⟩

theorem spanFrom {start start' : Span} (t : L.At n true a s c d)
    (h : L.likeness.Like start start') :
    L.Ends lost n true a s (Parser.spanFrom start b c) (Parser.spanFrom start' b d) :=
  .ok (Likeness.Like.map₂ Span.merge (fun _ _ _ => rfl) h (L.previous t)) t

/-- What is read of an expression gets the span that it was read from. -/
theorem spanned {start start' : Span} {f f' : ExprForm} (t : L.At n true a s c d)
    (h : L.likeness.Like start start') (hf : L.likeness.Like f f') :
    L.Ends lost n true a s ((do return ⟨← Parser.spanFrom start, f⟩ : Parser Expr) b c)
      ((do return ⟨← Parser.spanFrom start', f'⟩ : Parser Expr) b d) :=
  (t.spanFrom h).bind fun _ hs t => .pure (.expr hs hf) t

/-- The test of a repetition and its steps correspond at all places that it reaches. -/
theorem iterate {continues : Cursor → Bool} {step step' : α → Parser α}
    (tests : ∀ {c d}, L.At n m a s c d → continues d = continues c)
    (steps : ∀ {x y c d}, L.At n m a s c d → continues c = true → L.likeness.Like x y →
      L.Ends lost n m a s (step x b c) (step' y b d))
    {x y : α} (h : L.likeness.Like x y) (t : L.At n m a s c d) :
    L.Ends lost n m a s (Parser.iterate continues step x b c)
      (Parser.iterate continues step' y b d) := by
  fun_induction Parser.iterate continues step x b c generalizing y d with
  | case1 x c hc e c₁ hs =>
    have hr := steps t hc h
    rw [hs] at hr
    rw [Parser.iterate.eq_def continues step', tests t, if_pos hc]
    generalize step' y b d = r at hr
    cases hr with
    | error h => exact .error h
    | lost h h' => exact .lost h h'
  | case2 x c hc z c₁ hs hl ih =>
    have hr := steps t hc h
    rw [hs] at hr
    rw [Parser.iterate.eq_def continues step', tests t, if_pos hc]
    generalize step' y b d = r at hr
    cases hr with
    | ok h' t' =>
      dsimp only
      rw [if_pos ((t.ahead_lt_iff t').mpr hl)]
      exact ih h' t'
  | case3 x c hc z c₁ hs hl =>
    have hr := steps t hc h
    rw [hs] at hr
    rw [Parser.iterate.eq_def continues step', tests t, if_pos hc]
    generalize step' y b d = r at hr
    cases hr with
    | ok h' t' =>
      dsimp only
      rw [if_neg (mt (t.ahead_lt_iff t').mp hl)]
      exact .ok h' t'
  | case4 x c hc =>
    rw [Parser.iterate.eq_def continues step', tests t, if_neg hc]
    exact .ok h t

end At

namespace At
variable {α : Type} {b : Bool} [HasBare α]

theorem many {continues : Cursor → Bool} {item item' : Parser α}
    (tests : ∀ {c d}, L.At n m a s c d → continues d = continues c)
    (items : ∀ {c d}, L.At n m a s c d → continues c = true →
      L.Ends lost n m a s (item b c) (item' b d))
    (t : L.At n m a s c d) :
    L.Ends lost n m a s (Parser.many continues item b c) (Parser.many continues item' b d) := by
  refine Ends.bind (t.iterate tests (fun t hc hs => ?_) .nil) fun _ h t =>
    .pure h.reverse t
  exact (items t hc).bind fun _ h t => .pure (h.cons hs) t

/-- Items up to a closing mark, between brackets. -/
theorem manyUntil {close : Punctuator} {item item' : Parser α} {bracket : Bracket}
    (items : ∀ {c d}, L.At n m a (bracket :: s) c d →
      L.Ends lost n m a (bracket :: s) (item b c) (item' b d))
    (t : L.At n m a (bracket :: s) c d) :
    L.Ends lost n m a (bracket :: s) (Parser.manyUntil close item b c)
      (Parser.manyUntil close item' b d) :=
  t.many (fun t => by rw [Cursor.seesMark, Cursor.seesMark, t.sees_inside rfl, t.atEnd_inside])
    fun t _ => items t

theorem separator {close : Punctuator} {bracket : Bracket} (t : L.At n m a (bracket :: s) c d) :
    L.Ends lost n m a (bracket :: s) (Parser.separator close b c)
      (Parser.separator close b d) := by
  refine .get (.ite ?_ (fun _ => ?_) fun _ => .pure .plain t)
  · rw [Cursor.seesMark, Cursor.seesMark, t.sees_inside rfl]
  · exact (t.consumeMark rfl rfl).weaken

/-- An item of a list with the comma after it. -/
theorem separated {close : Punctuator} {item item' : Parser α} {bracket : Bracket}
    (items : L.Ends lost n m a (bracket :: s) (item b c) (item' b d)) :
    L.Ends lost n m a (bracket :: s)
      ((do let x ← item; Parser.separator close; return x : Parser α) b c)
      ((do let x ← item'; Parser.separator close; return x : Parser α) b d) :=
  items.bind fun _ h t => t.separator.bind fun _ _ t => .pure h t

theorem commaList {close : Punctuator} {item item' : Parser α} {bracket : Bracket}
    (hs : Bracket.step (bracket :: s) (.punct close) = some s') (hp : (close == .lParen) = false)
    (items : ∀ {c d}, L.At n m a (bracket :: s) c d →
      L.Ends lost n m a (bracket :: s) (item b c) (item' b d))
    (t : L.At n m a (bracket :: s) c d) :
    L.Ends lost n true true s' (Parser.commaList close item b c)
      (Parser.commaList close item' b d) :=
  (t.manyUntil fun t => separated (items t)).bind fun _ h t =>
    (t.consumeMark hs hp).bind fun _ _ t => .pure h t

theorem after {kind : TokenKind} {p p' : Parser α} (t : L.At n m a s c d)
    (hk : kind.light = true) (hs : Bracket.Neutral kind)
    (hp : ∀ {c d}, L.At n true true s c d → L.Ends lost n true true s (p b c) (p' b d)) :
    L.Ends lost n m a s (Parser.after kind p b c) (Parser.after kind p' b d) := by
  refine t.eat hk (hs s) (fun t => ?_) fun _ => .pure .none t
  exact (hp t).weaken.bind fun _ h t => .pure h.some t

theorem afterWord {p p' : Parser α} (t : L.At n m a s c d) (word : String)
    (hp : ∀ {c d}, L.At n m a s c d → L.Ends lost n true true s (p b c) (p' b d)) :
    L.Ends lost n m a s (Parser.afterWord word p b c) (Parser.afterWord word p' b d) := by
  refine (t.eatWord word).bindPlain fun _ t => .ite rfl (fun _ => ?_) fun _ => .pure .none t
  exact (hp t).weaken.bind fun _ h t => .pure h.some t

end At

/-! ## Modifiers -/

namespace At
variable {b : Bool} {bracket : Bracket}

/-- A word is a modifier or not because of the token after it, which is the same between
brackets. -/
theorem modifier (t : L.At n m a (bracket :: s) c d) (word : String) :
    L.Ends lost n m a (bracket :: s) (Parser.modifier word b c) (Parser.modifier word b d) := by
  refine .get (.get (.ite ?_ (fun hw => ?_) fun _ => .pure .plain t))
  · rw [t.seesWord]
    cases hw : c.seesWord word with
    | false => rfl
    | true =>
      have hk := Cursor.kind_of_seesWord hw
      have h := t.second_inside (by simp [Cursor.atEnd, hk]) (by simp [hk]) (by rw [hk]; rfl)
      rw [Cursor.modifierApplies, h.1]
      rfl
  · have hk := Cursor.kind_of_seesWord (Bool.and_eq_true_iff.mp hw).1
    refine t.advance (by simp [Cursor.atEnd, hk]) (by rw [hk]; rfl) (by simp [hk]) fun t => ?_
    exact .pure .plain (L.weaken t)

theorem asyncModifier (t : L.At n m a (bracket :: s) c d) :
    L.Ends lost n m a (bracket :: s) (Parser.asyncModifier b c) (Parser.asyncModifier b d) := by
  cases hw : c.seesWord "async" with
  | true =>
    have hk := Cursor.kind_of_seesWord hw
    have h := t.second_inside (by simp [Cursor.atEnd, hk]) (by simp [hk]) (by rw [hk]; rfl)
    exact .get (.ite h.2 (fun _ => .pure .plain t) fun _ => t.modifier _)
  | false =>
    -- Without the word nothing is read, whatever the test of the line says.
    have hnone (c : Cursor) (hw : c.seesWord "async" = false) :
        Parser.asyncModifier b c = .ok false c := by
      simp only [Parser.asyncModifier, Parser.modifier, Parser.bind_apply, Parser.if_apply,
        show (MonadState.get : Parser Cursor) b c = .ok c c from rfl, hw, Bool.false_and]
      split <;> rfl
    rw [hnone c hw, hnone d (by rw [t.seesWord, hw])]
    exact .ok .plain t

theorem modifiers (t : L.At n m a (bracket :: s) c d) :
    L.Ends lost n m a (bracket :: s) (Parser.modifiers b c) (Parser.modifiers b d) := by
  refine t.asyncModifier.bindPlain fun _ t => ?_
  refine Ends.bindPlain (t.eat? rfl fun _ => rfl) fun _ t => ?_
  refine .ite rfl (fun _ => .pure .plain t) fun _ => ?_
  refine (t.modifier _).bindPlain fun _ t => ?_
  refine .ite rfl (fun _ => .pure .plain t) fun _ => ?_
  refine (t.modifier _).bindPlain fun _ t => ?_
  exact .ite rfl (fun _ => .pure .plain t) fun _ =>
    .pure .plain t

end At
end Lockstep
end ModuleBundler
