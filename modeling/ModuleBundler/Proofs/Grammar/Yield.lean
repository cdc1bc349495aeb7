import ModuleBundler.Grammar.Module
import ModuleBundler.Proofs.Grammar.Operator
import ModuleBundler.Proofs.Tree.Bare

/-! Reading forward: what is read from tokens that are known, where `in` is an operator. The tokens
stand nowhere, and so does what is read. -/
namespace ModuleBundler
open ModuleBundler.Parser

/-- The place before some tokens, after another one. -/
def Cursor.on (previous : Token) : List Token → Cursor
  | [] => ⟨previous, previous, []⟩
  | t :: ts => ⟨previous, t, ts⟩

namespace Token

/-- An operator or delimiter. -/
def mark (p : Punctuator) : Token := ⟨.punct p, .nowhere, p.text, false⟩

/-- A reserved word. -/
def word (k : Keyword) : Token := ⟨.keyword k, .nowhere, k.text, false⟩

/-- A name. -/
def name (text : String) : Token := ⟨.identifier, .nowhere, text, false⟩

/-- A string at the start of a line. -/
def key (value : String) : Token := ⟨.stringLiteral, .nowhere, value, true⟩

end Token

variable {α β : Type} {x : α} {y : β} {ts us vs : List Token} {t u : Token}

namespace Cursor

theorem next_on (ht : t.kind ≠ .eof) (previous : Token) :
    (on previous (t :: u :: us)).next = on t (u :: us) := by
  simp [on, next, atEnd, ht]

/-- Whether the next token is of a kind depends on its kind alone. -/
theorem sees_on (kind : TokenKind) (previous : Token) (ht : t.kind ≠ .eof) :
    (on previous (t :: ts)).sees kind = (t.kind == kind) := by
  simp [on, sees, atEnd, ht]

end Cursor

theorem advance_on (ht : t.kind ≠ .eof) (previous : Token) :
    advance true (.on previous (t :: u :: us)) = .ok t (.on t (u :: us)) := by
  have h : advance true (.on previous (t :: u :: us))
      = .ok (Cursor.on previous (t :: u :: us)).next.previous
        (Cursor.on previous (t :: u :: us)).next := rfl
  rw [h, Cursor.next_on ht]
  rfl

theorem consumeMark_on {p : Punctuator} (hk : t.kind = .punct p) (previous : Token) :
    consumeMark p true (.on previous (t :: u :: us)) = .ok () (.on t (u :: us)) := by
  have ht : t.kind ≠ .eof := by rw [hk]; rintro ⟨⟩
  have hs : (Cursor.on previous (t :: u :: us)).sees (.punct p) = true := by
    rw [Cursor.sees_on _ _ ht, hk, beq_self_eq_true]
  have h : consume (.punct p) true (.on previous (t :: u :: us)) = .ok t (.on t (u :: us)) := by
    simp only [consume, bind_ok, get_ok, if_apply]
    exact ⟨_, _, ⟨rfl, rfl⟩, by rw [if_pos hs, advance_on ht]⟩
  exact bind_ok.mpr ⟨t, _, h, rfl⟩

theorem eat_no_on {kind : TokenKind} (h : t.kind ≠ kind) (previous : Token) :
    eat kind true (.on previous (t :: ts)) = .ok false (.on previous (t :: ts)) := by
  have hs : (Cursor.on previous (t :: ts)).sees kind = false := by
    simp [Cursor.on, Cursor.sees, h]
  simp only [eat, bind_ok, get_ok, if_apply]
  exact ⟨_, _, ⟨rfl, rfl⟩, by rw [hs]; rfl⟩

theorem spanFrom_on (ht : t.span = .nowhere) :
    spanFrom .nowhere true (.on t ts) = .ok .nowhere (.on t ts) := by
  have h : (Cursor.on t ts).previous = t := by cases ts <;> rfl
  have hs : spanFrom .nowhere true (.on t ts)
      = .ok (Span.nowhere.merge (Cursor.on t ts).previous.span) (.on t ts) := rfl
  rw [hs, h, ht, Span.merge_self]

/-- A reader reads a value from tokens and leaves the others. -/
def Yields (p : Parser α) (ts : List Token) (x : α) (us : List Token) : Prop :=
  ∀ t : Token, t.span = .nowhere →
    ∃ u : Token, u.span = .nowhere ∧ p true (.on t ts) = .ok x (.on u us)

/-- A reader reads a value from tokens and leaves the others, whatever token was read before. -/
def Begins (p : Parser α) (ts : List Token) (x : α) (us : List Token) : Prop :=
  ∀ t : Token, ∃ u : Token, u.span = .nowhere ∧ p true (.on t ts) = .ok x (.on u us)

/-- A reader fails at some tokens. -/
def Fails (p : Parser α) (ts : List Token) : Prop :=
  ∀ t : Token, ∃ e c, p true (.on t ts) = .error e c

namespace Yields

theorem pure : Yields (pure x : Parser α) ts x ts := fun t ht => ⟨t, ht, rfl⟩

theorem bind {p : Parser α} {f : α → Parser β} (hp : Yields p ts x us)
    (hf : Yields (f x) us y vs) : Yields (p >>= f) ts y vs := by
  intro t ht
  obtain ⟨u, hu, h⟩ := hp t ht
  obtain ⟨v, hv, h'⟩ := hf u hu
  exact ⟨v, hv, bind_ok.mpr ⟨x, _, h, h'⟩⟩

theorem map {p : Parser α} {f : α → β} (hp : Yields p ts x us) : Yields (f <$> p) ts (f x) us := by
  rw [← bind_pure_comp]
  exact hp.bind pure

theorem get {f : Cursor → Parser α} (h : ∀ t, Yields (f (.on t ts)) ts x us) :
    Yields (MonadState.get >>= f) ts x us := fun t ht => h t t ht

theorem yes {p q : Parser α} {b : Bool} (hb : b = true) (h : Yields p ts x us) :
    Yields (if b then p else q) ts x us := by rwa [if_pos hb]

theorem no {p q : Parser α} {b : Bool} (hb : b = false) (h : Yields q ts x us) :
    Yields (if b then p else q) ts x us := by rwa [if_neg (Bool.eq_false_iff.mp hb)]

theorem here (hs : t.span = .nowhere) : Yields here (t :: ts) .nowhere (t :: ts) :=
  fun u hu => ⟨u, hu, by rw [← hs]; rfl⟩

theorem spanFrom : Yields (spanFrom .nowhere) ts .nowhere ts :=
  fun t ht => ⟨t, ht, spanFrom_on ht⟩

theorem read {f : Bool → Parser α} (h : Yields (f true) ts x us) :
    Yields (MonadReader.read >>= f) ts x us := h

theorem withIn {p : Parser α} (h : Yields p ts x us) : Yields (withIn p) ts x us := h

theorem advance (ht : t.kind ≠ .eof) (hs : t.span = .nowhere) :
    Yields advance (t :: u :: us) t (u :: us) :=
  fun previous _ => ⟨t, hs, advance_on ht previous⟩

theorem eat {kind : TokenKind} (hk : t.kind = kind) (ht : kind ≠ .eof) (hs : t.span = .nowhere) :
    Yields (eat kind) (t :: u :: us) true (u :: us) := by
  subst hk
  exact .get fun previous => .yes (by rw [Cursor.sees_on _ _ ht, beq_self_eq_true])
    ((advance ht hs).bind pure)

theorem eatMark (p : Punctuator) : Yields (eatMark p) (.mark p :: u :: us) true (u :: us) :=
  eat rfl (by rintro ⟨⟩) rfl

theorem semicolon : Yields semicolon (.mark .semicolon :: u :: us) () (u :: us) :=
  (eatMark .semicolon).bind pure

theorem eat_no {kind : TokenKind} (h : t.kind ≠ kind) :
    Yields (Parser.eat kind) (t :: ts) false (t :: ts) :=
  fun previous hp => ⟨previous, hp, eat_no_on h previous⟩

theorem eatWord_no {word : String} (h : t.kind ≠ .identifier) :
    Yields (eatWord word) (t :: ts) false (t :: ts) :=
  .get fun previous => .no (by simp [Cursor.on, Cursor.seesWord, h]) pure

theorem consumeMark {p : Punctuator} (hk : t.kind = .punct p) (hs : t.span = .nowhere) :
    Yields (consumeMark p) (t :: u :: us) () (u :: us) :=
  fun previous _ => ⟨t, hs, consumeMark_on hk previous⟩

theorem consume {kind : TokenKind} (hk : t.kind = kind) (ht : kind ≠ .eof)
    (hs : t.span = .nowhere) : Yields (consume kind) (t :: u :: us) t (u :: us) := by
  subst hk
  exact .get fun previous => .yes (by rw [Cursor.sees_on _ _ ht, beq_self_eq_true])
    (advance ht hs)

theorem consumeKeyword {k : Keyword} (hk : t.kind = .keyword k) (hs : t.span = .nowhere) :
    Yields (consumeKeyword k) (t :: u :: us) () (u :: us) := by
  have h : Yields (Parser.consume (.keyword k)) (t :: u :: us) t (u :: us) :=
    consume hk (by rintro ⟨⟩) hs
  exact h.bind pure

theorem ident (text : String) :
    Yields ident (.name text :: u :: us) ⟨text, .nowhere⟩ (u :: us) := by
  have h : Yields (Parser.consume .identifier) (.name text :: u :: us) (.name text) (u :: us) :=
    consume rfl (by rintro ⟨⟩) rfl
  exact h.bind pure

/-- A repetition goes on with what its next step yields. -/
theorem iterate_next {continues : Cursor → Bool} {step : α → Parser α} {a b : α} {vs : List Token}
    (hc : ∀ t, continues (.on t ts) = true) (hs : Yields (step a) ts b (u :: us))
    (hl : us.length + 1 < ts.length)
    (h : Yields (Parser.iterate continues step b) (u :: us) x vs) :
    Yields (Parser.iterate continues step a) ts x vs := by
  intro t ht
  obtain ⟨v, hv, hr⟩ := hs t ht
  obtain ⟨w, hw, h⟩ := h v hv
  refine ⟨w, hw, ?_⟩
  have hlen : (Cursor.on t ts).ahead.length = ts.length - 1 := by cases ts <;> rfl
  have hl' : (Cursor.on v (u :: us)).ahead.length < (Cursor.on t ts).ahead.length := by
    rw [hlen]
    simp only [Cursor.on]
    omega
  rw [Parser.iterate, if_pos (hc t), hr]
  dsimp only
  rw [if_pos hl', h]

theorem iterate_stop {continues : Cursor → Bool} {step : α → Parser α}
    (hc : ∀ t, continues (.on t ts) = false) :
    Yields (Parser.iterate continues step x) ts x ts := by
  intro t ht
  refine ⟨t, ht, ?_⟩
  rw [Parser.iterate, hc]
  rfl

end Yields

namespace Begins

theorem bind {p : Parser α} {f : α → Parser β} (hp : Begins p ts x us)
    (hf : Yields (f x) us y vs) : Begins (p >>= f) ts y vs := by
  intro t
  obtain ⟨u, hu, h⟩ := hp t
  obtain ⟨v, hv, h'⟩ := hf u hu
  exact ⟨v, hv, bind_ok.mpr ⟨x, _, h, h'⟩⟩

theorem get {f : Cursor → Parser α} (h : ∀ t, Begins (f (.on t ts)) ts x us) :
    Begins (MonadState.get >>= f) ts x us := fun t => h t t

theorem yes {p q : Parser α} {b : Bool} (hb : b = true) (h : Begins p ts x us) :
    Begins (if b then p else q) ts x us := by rwa [if_pos hb]

theorem no {p q : Parser α} {b : Bool} (hb : b = false) (h : Begins q ts x us) :
    Begins (if b then p else q) ts x us := by rwa [if_neg (Bool.eq_false_iff.mp hb)]

theorem here {f : Span → Parser α} (hs : t.span = .nowhere)
    (h : Begins (f .nowhere) (t :: ts) x us) : Begins (here >>= f) (t :: ts) x us := by
  intro previous
  obtain ⟨u, hu, h⟩ := h previous
  exact ⟨u, hu, bind_ok.mpr ⟨.nowhere, _, by rw [← hs]; rfl, h⟩⟩

theorem advance (ht : t.kind ≠ .eof) (hs : t.span = .nowhere) :
    Begins advance (t :: u :: us) t (u :: us) :=
  fun previous => ⟨t, hs, advance_on ht previous⟩

end Begins

/-- Items that are read one after the other up to a closing mark. -/
inductive Repeats (close : Punctuator) (item : Parser α) : List Token → List α → List Token → Prop
    where
  | nil {t : Token} {ts : List Token} :
      t.kind = .punct close → Repeats close item (t :: ts) [] (t :: ts)
  | cons {t u : Token} {ts us vs : List Token} {a : α} {as : List α} :
      t.kind ≠ .punct close → t.kind ≠ .eof → Yields item (t :: ts) a (u :: us) →
      us.length < ts.length → Repeats close item (u :: us) as vs →
      Repeats close item (t :: ts) (a :: as) vs

theorem Repeats.yields {close : Punctuator} {item : Parser α} {as : List α}
    (h : Repeats close item ts as us) : Yields (manyUntil close item) ts as us := by
  have hr (read : List α) : Yields (iterate (fun c => !c.seesMark close && !c.atEnd)
      (fun items => return (← item) :: items) read) ts (as.reverse ++ read) us := by
    induction h generalizing read with
    | nil hk =>
      refine Yields.iterate_stop fun previous => ?_
      simp [Cursor.seesMark, Cursor.on, Cursor.sees, Cursor.atEnd, hk]
    | cons hc he hi hl _ ih =>
      refine Yields.iterate_next (fun previous => ?_) (hi.bind .pure) (by simpa using hl) ?_
      · simp [Cursor.seesMark, Cursor.on, Cursor.sees, Cursor.atEnd, hc, he]
      · simpa using ih (_ :: read)
  have h : Yields (manyUntil close item) ts (as.reverse ++ []).reverse us := (hr []).bind .pure
  simpa using h

namespace Yields

theorem separator {close : Punctuator} (hk : t.kind = .punct close) :
    Yields (separator close) (t :: ts) () (t :: ts) := by
  refine .get fun previous => .no ?_ .pure
  simp [Cursor.seesMark, Cursor.on, Cursor.sees, Cursor.atEnd, hk]

theorem separator_comma {close : Punctuator} (hc : close ≠ .comma) :
    Yields (Parser.separator close) (.mark .comma :: u :: us) () (u :: us) := by
  refine .get fun previous => .yes ?_ (consumeMark rfl rfl)
  simp [Cursor.seesMark, Cursor.on, Cursor.sees, Token.mark, hc.symm]

/-- Items with commas between them, and the closing mark. -/
theorem commaList {close : Punctuator} {item : Parser α} {as : List α} (hs : t.span = .nowhere)
    (hk : t.kind = .punct close)
    (h : Repeats close (do let a ← item; Parser.separator close; return a) ts as (t :: u :: us)) :
    Yields (Parser.commaList close item) ts as (u :: us) :=
  h.yields.bind ((consumeMark hk hs).bind pure)

end Yields

namespace Fails

theorem unexpected {fault : TokenKind → Fault} : Fails (unexpected fault : Parser α) ts :=
  fun _ => ⟨_, _, rfl⟩

theorem get {f : Cursor → Parser α} (h : ∀ t, Fails (f (.on t ts)) ts) :
    Fails (MonadState.get >>= f) ts := fun t => h t t

theorem left {p : Parser α} {f : α → Parser β} (h : Fails p ts) : Fails (p >>= f) ts := by
  intro t
  obtain ⟨e, c, h⟩ := h t
  exact ⟨e, c, by rw [bind_apply, h]⟩

theorem right {p : Parser α} {f : α → Parser β}
    (hp : ∀ previous, ∃ u, p true (.on previous ts) = .ok x (.on u us)) (hf : Fails (f x) us) :
    Fails (p >>= f) ts := by
  intro previous
  obtain ⟨u, h⟩ := hp previous
  obtain ⟨e, c, hf⟩ := hf u
  exact ⟨e, c, by rw [bind_apply, h]; exact hf⟩

theorem iterate {continues : Cursor → Bool} {step : α → Parser α} {a : α}
    (hc : ∀ t, continues (.on t ts) = true) (hs : Fails (step a) ts) :
    Fails (Parser.iterate continues step a) ts := by
  intro t
  obtain ⟨e, c, h⟩ := hs t
  exact ⟨e, c, by rw [Parser.iterate, if_pos (hc t), h]⟩

end Fails
namespace Grammar
open Token
variable {g : Grammar}

/-- A name as a pattern that stands nowhere. -/
def namePattern (text : String) : Pattern := ⟨.nowhere, .ident ⟨text, .nowhere⟩⟩

/-- Names with commas between them. -/
def nameList : List String → List Token
  | [] => []
  | n :: ns => name n :: ns.flatMap fun m => [mark .comma, name m]

theorem yields_pattern (n : String) : Yields g.readPattern (name n :: u :: us) (namePattern n)
    (u :: us) := by
  have h : Yields g.patternForm (name n :: u :: us) (.ident ⟨n, .nowhere⟩) (u :: us) :=
    .get fun _ => (Yields.ident n).map
  exact (Yields.here rfl).bind (h.bind (Yields.spanFrom.bind .pure))

theorem yields_param (n : String) (hu : u.kind ≠ .punct .eq) :
    Yields g.step.param (name n :: u :: us) ⟨namePattern n, false⟩ (u :: us) := by
  have h : Yields (g.step.defaultFor (namePattern n)) (u :: us) (namePattern n) (u :: us) :=
    (Yields.eat_no hu).bind (.no rfl .pure)
  have hp : Yields g.step.patternWithDefault (name n :: u :: us) (namePattern n) (u :: us) :=
    Yields.bind (yields_pattern n) h
  refine Yields.bind (Yields.eat_no ?_) (.no rfl (hp.bind .pure))
  rintro ⟨⟩

/-- Names in parentheses are parameters. -/
theorem yields_params (ns : List String) :
    Yields g.step.params (mark .lParen :: (nameList ns ++ mark .rParen :: u :: us))
      (ns.map fun n => ⟨namePattern n, false⟩) (u :: us) := by
  have hlist (n : String) (ns : List String) : Repeats .rParen
      (do let a ← g.step.param; separator .rParen; return a)
      (nameList (n :: ns) ++ mark .rParen :: u :: us)
      ((n :: ns).map fun n => ⟨namePattern n, false⟩) (mark .rParen :: u :: us) := by
    induction ns generalizing n with
    | nil =>
      have hn : Yields g.step.param (name n :: mark .rParen :: u :: us) ⟨namePattern n, false⟩
        (mark .rParen :: u :: us) := yields_param n (by rintro ⟨⟩)
      exact .cons (by rintro ⟨⟩) (by rintro ⟨⟩) (hn.bind ((Yields.separator rfl).bind .pure))
        (by simp) (.nil rfl)
    | cons m ns ih =>
      have hn : Yields g.step.param
          (name n :: mark .comma :: (nameList (m :: ns) ++ mark .rParen :: u :: us))
          ⟨namePattern n, false⟩ (mark .comma :: (nameList (m :: ns) ++ mark .rParen :: u :: us)) :=
        yields_param n (by rintro ⟨⟩)
      have hs : Yields (separator .rParen)
          (mark .comma :: (nameList (m :: ns) ++ mark .rParen :: u :: us)) ()
          (nameList (m :: ns) ++ mark .rParen :: u :: us) := Yields.separator_comma (by rintro ⟨⟩)
      exact .cons (by rintro ⟨⟩) (by rintro ⟨⟩) (hn.bind (hs.bind .pure))
        (Nat.lt_succ_of_lt (Nat.lt_succ_self _)) (ih m)
  cases ns with
  | nil => exact (Yields.consumeMark rfl rfl).bind (.commaList rfl rfl (.nil rfl))
  | cons n ns => exact (Yields.consumeMark rfl rfl).bind (.commaList rfl rfl (hlist n ns))

/-- Statements in braces; what stands between the braces may have places. -/
theorem yields_block {v : Token} {vs : List Token} {sts : List Stmt} (hu : u.kind = .punct .rBrace)
    (hs : u.span = .nowhere)
    (h : ∀ previous, ∃ last, manyUntil .rBrace g.statement true (.on previous (v :: vs))
      = .ok sts (.on last (u :: t :: us))) :
    Yields g.block (mark .lBrace :: v :: vs) ⟨.nowhere, sts⟩ (t :: us) := by
  intro previous _
  obtain ⟨last, h⟩ := h (mark .lBrace)
  refine ⟨u, hs, ?_⟩
  simp only [block, bind_ok]
  exact ⟨.nowhere, _, rfl, (), _, consumeMark_on rfl previous, sts, _, h, (), _,
    consumeMark_on hu last, .nowhere, _, spanFrom_on hs, rfl⟩

theorem yields_function {v : Token} {vs : List Token} {bl : Block} (ns : List String)
    (hb : Yields g.step.block (mark .lBrace :: v :: vs) bl us) :
    Yields (g.step.function true)
      (word .functionKw :: mark .lParen ::
        (nameList ns ++ mark .rParen :: mark .lBrace :: v :: vs))
      ⟨none, ns.map fun n => ⟨namePattern n, false⟩, bl, false, false⟩ us := by
  generalize hp : nameList ns ++ mark .rParen :: mark .lBrace :: v :: vs = ps
  have hps : Yields g.step.params (mark .lParen :: ps) _ (mark .lBrace :: v :: vs) :=
    hp ▸ yields_params ns
  have hword : Yields (eatWord "async") (word .functionKw :: mark .lParen :: ps) false
    (word .functionKw :: mark .lParen :: ps) := Yields.eatWord_no (by rintro ⟨⟩)
  have hkeyword : Yields (consumeKeyword .functionKw) (word .functionKw :: mark .lParen :: ps) ()
    (mark .lParen :: ps) := Yields.consumeKeyword rfl rfl
  have hstar : Yields (eatMark .star) (mark .lParen :: ps) false (mark .lParen :: ps) :=
    Yields.eat_no (by rintro ⟨⟩)
  have hname : Yields (declaredName true .expectedFunctionName) (mark .lParen :: ps) none
    (mark .lParen :: ps) := .get fun _ => .no rfl (.yes rfl .pure)
  exact hword.bind (hkeyword.bind (hstar.bind (hname.bind (hps.bind (hb.bind .pure)))))

theorem yields_functionExpr {fn : FunctionDef}
    (h : Yields (g.function true) (word .functionKw :: ts) fn us) :
    Yields g.primaryExpression (word .functionKw :: ts) ⟨.nowhere, .functionExpr fn⟩ us := by
  have hc : Yields g.compound (word .functionKw :: ts) (.functionExpr fn) us :=
    .get fun _ => h.map
  exact .get fun _ => hc.bind (Yields.spanFrom.bind .pure)

/-- An operand without an operator before it. -/
theorem yields_operand {e : Expr} (ht : t.kind = .keyword .functionKw ∨ t.kind = .punct .lParen ∨
      t.kind = .punct .lBrace ∨ t.kind = .identifier)
    (h : Yields g.primaryExpression (t :: ts) e us) : Yields g.operand (t :: ts) e us := by
  refine .get fun previous => ?_
  have hc : (Cursor.on previous (t :: ts)).current = t := rfl
  simp only [hc]
  rcases ht with ht | ht | ht | ht
  all_goals
    rw [ht]
    exact h

/-- An operand is a name. -/
theorem yields_ident {n : String} (hu : u.kind ∉ [.punct .fatArrow, .punct .lParen, .identifier,
      .keyword .functionKw]) :
    Yields g.operand (name n :: u :: us) ⟨.nowhere, .ident n⟩ (u :: us) := by
  have hident : Yields identExpr (name n :: u :: us) ⟨.nowhere, .ident n⟩ (u :: us) :=
    (Yields.ident n).bind .pure
  have hexpression : Yields g.identifierExpression (name n :: u :: us) ⟨.nowhere, .ident n⟩
      (u :: us) := by
    refine .get fun previous => ?_
    have hsecond : (Cursor.on previous (name n :: u :: us)).secondKind? = some u.kind := rfl
    simp only [List.mem_cons, List.not_mem_nil, or_false, not_or] at hu
    refine .no (by simp [hsecond, hu]) ?_
    simp only [hsecond]
    split
    · split <;> simp_all
    · exact hident
  exact yields_operand (.inr (.inr (.inr rfl))) (.get fun _ => hexpression)

/-- An expression ends before a token that does not go on with it so tightly. -/
theorem yields_stop {e : Expr} {precedence : Nat}
    (hu : u.precedence true ≠ 0 → u.precedence true < precedence) :
    Yields (iterate (goesOn true precedence) g.extend e) (u :: us) e (u :: us) := by
  refine Yields.iterate_stop fun previous => ?_
  have hc : (Cursor.on previous (u :: us)).current = u := rfl
  rw [Bool.eq_false_iff, ne_eq, goesOn_iff, hc]
  exact fun h => Nat.not_le.mpr (hu h.1) h.2

/-- An expression goes on with what its next token begins. -/
theorem yields_step {left e : Expr} {form : ExprForm} {k : Continuation} {precedence : Nat}
    {v : Token} {vs ws : List Token} (hs : left.span = .nowhere)
    (hv : Continuation.ofToken? v.kind = some k) (hpos : 0 < v.precedence true)
    (hp : precedence ≤ v.precedence true)
    (hc : Yields (g.continueWith left (v.precedence true) k) (v :: vs) form (u :: us))
    (hl : us.length < vs.length)
    (h : Yields (iterate (goesOn true precedence) g.extend ⟨.nowhere, form⟩) (u :: us) e ws) :
    Yields (iterate (goesOn true precedence) g.extend left) (v :: vs) e ws := by
  have hcurrent (previous : Token) : (Cursor.on previous (v :: vs)).current = v := rfl
  have hextend : Yields (g.extend left) (v :: vs) ⟨.nowhere, form⟩ (u :: us) := by
    refine .get fun previous => ?_
    simp only [hcurrent previous, hv, hs]
    exact .read (hc.bind (Yields.spanFrom.bind .pure))
  refine Yields.iterate_next (fun previous => ?_) hextend ?_ h
  · rw [goesOn_iff, hcurrent previous]
    exact ⟨Nat.ne_zero_of_lt hpos, hp⟩
  · simpa using hl

theorem yields_readExpression {e : Expr} (h : Yields g.operand ts e (u :: us))
    (hu : Continuation.ofToken? u.kind = none) (precedence : Nat) :
    Yields (g.readExpression precedence) ts e (u :: us) :=
  h.bind (.read (yields_stop (Token.looser_of_none hu precedence)))

theorem yields_sequence {item : Parser Expr} {e : Expr} (h : Yields item ts e (u :: us))
    (hu : u.kind ≠ .punct .comma) : Yields (commaSequence item) ts e (u :: us) :=
  h.bind (.get fun previous => .no (by simp [Cursor.seesMark, Cursor.on, Cursor.sees, hu]) .pure)

theorem yields_enclosed {e : Expr} (h : Yields g.operand ts e (u :: us))
    (hc : Continuation.ofToken? u.kind = none) (hu : u.kind ≠ .punct .comma) :
    Yields g.step.enclosed ts e (u :: us) :=
  (yields_sequence (yields_readExpression h hc 1) hu).withIn

/-- Only some tokens can start a parameter. -/
theorem fails_params (ht : t.kind = .keyword .functionKw ∨ t.kind = .punct .lParen) :
    Fails g.step.params (mark .lParen :: t :: ts) := by
  have hform : Fails g.patternForm (t :: ts) := by
    refine .get fun previous => ?_
    have hc : (Cursor.on previous (t :: ts)).current = t := rfl
    simp only [hc]
    rcases ht with ht | ht
    · rw [ht]
      exact .unexpected
    · rw [ht]
      exact .unexpected
  have hhere : ∀ previous, ∃ last,
      here true (.on previous (t :: ts)) = .ok t.span (.on last (t :: ts)) :=
    fun previous => ⟨previous, rfl⟩
  have hparam : Fails g.step.param (t :: ts) := by
    refine .right (fun previous => ⟨previous, eat_no_on ?_ previous⟩) ?_
    · rcases ht with ht | ht <;> simp [ht]
    · exact .left (.left (.right hhere hform.left))
  refine .right (fun previous => ⟨_, consumeMark_on rfl previous⟩) (.left (.left ?_))
  refine .iterate (fun previous => ?_) hparam.left.left
  rcases ht with ht | ht <;> simp [Cursor.seesMark, Cursor.on, Cursor.sees, Cursor.atEnd, ht]

theorem no_arrowParams (ht : t.kind = .keyword .functionKw ∨ t.kind = .punct .lParen) :
    Yields g.step.arrowParams (mark .lParen :: t :: ts) none (mark .lParen :: t :: ts) := by
  intro previous hp
  have hfails : Fails g.step.params (mark .lParen :: t :: ts) := fails_params ht
  obtain ⟨e, c, h⟩ := hfails previous
  exact ⟨previous, hp, by rw [arrowParams, h]⟩

/-- An expression in parentheses that are no parameters. -/
theorem yields_paren {e : Expr}
    (hnone : Yields g.arrowParams (mark .lParen :: t :: ts) none (mark .lParen :: t :: ts))
    (h : Yields g.enclosed (t :: ts) e (mark .rParen :: u :: us)) :
    Yields g.parenExpression (mark .lParen :: t :: ts) ⟨.nowhere, .paren e⟩ (u :: us) := by
  refine (Yields.here rfl).bind (hnone.bind ?_)
  exact (Yields.consumeMark rfl rfl).bind (h.bind ((Yields.consumeMark rfl rfl).bind
    (Yields.spanFrom.bind .pure)))

/-- An arrow function without parameters. -/
theorem yields_arrow {v : Token} {vs : List Token} {bl : Block}
    (hb : Yields g.step.block (mark .lBrace :: v :: vs) bl us) :
    Yields g.step.parenExpression
      (mark .lParen :: mark .rParen :: mark .fatArrow :: mark .lBrace :: v :: vs)
      ⟨.nowhere, .arrowBlock false [] bl⟩ us := by
  have hparams : Yields g.step.arrowParams
      (mark .lParen :: mark .rParen :: mark .fatArrow :: mark .lBrace :: v :: vs) (some [])
      (mark .fatArrow :: mark .lBrace :: v :: vs) := by
    intro previous hp
    have hnone : Yields g.step.params
        (mark .lParen :: mark .rParen :: mark .fatArrow :: mark .lBrace :: v :: vs) []
        (mark .fatArrow :: mark .lBrace :: v :: vs) := yields_params []
    obtain ⟨last, hl, h⟩ := hnone previous hp
    exact ⟨last, hl, by rw [arrowParams, h]; rfl⟩
  have hbody : Yields (g.step.arrowBody [] false) (mark .lBrace :: v :: vs)
      (.arrowBlock false [] bl) us := .get fun _ => .yes rfl hb.map
  refine (Yields.here rfl).bind (hparams.bind ?_)
  exact (Yields.consumeMark rfl rfl).bind (hbody.bind (Yields.spanFrom.bind .pure))

theorem yields_primary_paren {e : Expr} (h : Yields g.parenExpression (mark .lParen :: ts) e us) :
    Yields g.primaryExpression (mark .lParen :: ts) e us :=
  .get fun _ => h

/-- An operand, and what its next token goes on with. -/
theorem yields_continued {form form' : ExprForm} {k : Continuation} {v : Token} {vs : List Token}
    (h : Yields g.operand ts ⟨.nowhere, form⟩ (v :: vs))
    (hv : Continuation.ofToken? v.kind = some k) (hp : 0 < v.precedence true)
    (hc : Yields (g.continueWith ⟨.nowhere, form⟩ (v.precedence true) k) (v :: vs) form' (u :: us))
    (hl : us.length < vs.length) (hu : Continuation.ofToken? u.kind = none) :
    Yields (g.readExpression 1) ts ⟨.nowhere, form'⟩ (u :: us) :=
  h.bind (.read (yields_step rfl hv hp hp hc hl (yields_stop (Token.looser_of_none hu 1))))

/-- A property of what a name stands for. -/
theorem yields_member {n : String} (m : String) (hu : Continuation.ofToken? u.kind = none) :
    Yields (g.readExpression 1) (name n :: mark .dot :: name m :: u :: us)
      ⟨.nowhere, .member false ⟨.nowhere, .ident n⟩ ⟨m, .nowhere⟩⟩ (u :: us) := by
  have hproperty : Yields propertyName (name m :: u :: us) ⟨m, .nowhere⟩ (u :: us) :=
    .get fun _ => .yes rfl ((Yields.advance (by rintro ⟨⟩) rfl).bind .pure)
  have hcontinue : Yields (g.continueWith ⟨.nowhere, .ident n⟩ 17 .member)
      (mark .dot :: name m :: u :: us) (.member false ⟨.nowhere, .ident n⟩ ⟨m, .nowhere⟩)
      (u :: us) := (Yields.advance (by rintro ⟨⟩) rfl).bind (hproperty.bind .pure)
  exact yields_continued (yields_ident (by decide)) rfl (by decide) hcontinue
    (by simp only [List.length_cons]; omega) hu

/-- A call without arguments. -/
theorem yields_call {form : ExprForm}
    (h : Yields g.operand ts ⟨.nowhere, form⟩ (mark .lParen :: mark .rParen :: u :: us))
    (hu : Continuation.ofToken? u.kind = none) :
    Yields (g.readExpression 1) ts ⟨.nowhere, .call false ⟨.nowhere, form⟩ []⟩ (u :: us) := by
  have harguments : Yields g.arguments (mark .lParen :: mark .rParen :: u :: us) [] (u :: us) :=
    (Yields.consumeMark rfl rfl).bind ((Repeats.nil rfl).yields.withIn.bind
      ((Yields.consumeMark rfl rfl).bind .pure))
  have hcontinue : Yields (g.continueWith ⟨.nowhere, form⟩ 17 .call)
      (mark .lParen :: mark .rParen :: u :: us) (.call false ⟨.nowhere, form⟩ []) (u :: us) :=
    harguments.bind .pure
  exact yields_continued h rfl (by decide) hcontinue (by simp only [List.length_cons]; omega) hu

theorem yields_object {v : Token} {vs : List Token} {ms : List ObjectMember}
    (hu : u.kind = .punct .rBrace) (hs : u.span = .nowhere)
    (h : Repeats .rBrace (do let m ← g.objectMember; separator .rBrace; return m)
      (v :: vs) ms (u :: t :: us)) :
    Yields g.primaryExpression (mark .lBrace :: v :: vs) ⟨.nowhere, .object ms⟩ (t :: us) := by
  have hobject : Yields g.objectLiteral (mark .lBrace :: v :: vs) (.object ms) (t :: us) :=
    (Yields.consumeMark rfl rfl).bind ((Yields.commaList hs hu h).bind .pure)
  have hcompound : Yields g.compound (mark .lBrace :: v :: vs) (.object ms) (t :: us) :=
    .get fun _ => hobject
  exact .get fun _ => hcompound.bind (Yields.spanFrom.bind .pure)

/-- A property whose key is a string. -/
theorem yields_property {e : Expr} (id : String) (h : Yields g.assignment (t :: ts) e us) :
    Yields g.objectMember (key id :: mark .colon :: t :: ts) (.property (.string id) e false)
      us := by
  have hmodifiers : Yields modifiers (key id :: mark .colon :: t :: ts) ⟨.method, false, false⟩
      (key id :: mark .colon :: t :: ts) := fun previous hp => ⟨previous, hp, rfl⟩
  have hkey : Yields g.propertyKey (key id :: mark .colon :: t :: ts) (.string id)
      (mark .colon :: t :: ts) :=
    .get fun _ => (Yields.advance (by rintro ⟨⟩) rfl).bind .pure
  have hproperty : Yields g.propertyOrMethod (key id :: mark .colon :: t :: ts)
      (.property (.string id) e false) us :=
    hmodifiers.bind (hkey.bind (.get fun _ => .no rfl (.no rfl
      ((Yields.eatMark .colon).bind (.yes rfl (h.bind .pure))))))
  have hdots : Yields (eatMark .dotDotDot) (key id :: mark .colon :: t :: ts) false
    (key id :: mark .colon :: t :: ts) := Yields.eat_no (by rintro ⟨⟩)
  exact hdots.bind (.no rfl hproperty)

/-- A variable with a value. -/
theorem begins_var {v : Token} {e : Expr} (n : String) (hk : v.kind = .keyword .varKw)
    (hs : v.span = .nowhere)
    (h : Yields g.step.assignment (t :: ts) e (mark .semicolon :: u :: us)) :
    Begins g.step.readStatement (v :: name n :: mark .eq :: t :: ts)
      ⟨.nowhere, .decl (.vars .varVar [⟨namePattern n, some e⟩])⟩ (u :: us) := by
  have hafter : Yields (after (.punct .eq) g.step.assignment) (mark .eq :: t :: ts) (some e)
      (mark .semicolon :: u :: us) :=
    (Yields.eatMark .eq).bind (.yes rfl (h.bind .pure))
  have hbinding : Yields g.step.binding (name n :: mark .eq :: t :: ts) ⟨namePattern n, some e⟩
      (mark .semicolon :: u :: us) := Yields.bind (yields_pattern n) (hafter.bind .pure)
  have hmore : Yields (many (·.seesMark .comma) (do consumeMark .comma; g.step.binding))
      (mark .semicolon :: u :: us) [] (mark .semicolon :: u :: us) :=
    (Yields.iterate_stop fun _ => rfl).bind .pure
  have hbindings : Begins g.step.bindings (v :: name n :: mark .eq :: t :: ts)
      (.varVar, [⟨namePattern n, some e⟩]) (mark .semicolon :: u :: us) := by
    refine .get fun previous => ?_
    have hc : (Cursor.on previous (v :: name n :: mark .eq :: t :: ts)).current = v := rfl
    simp only [hc, hk]
    exact (Begins.advance (by rw [hk]; rintro ⟨⟩) hs).bind (hbinding.bind (hmore.bind .pure))
  have hdecl : Begins g.step.varDecl (v :: name n :: mark .eq :: t :: ts)
      (.vars .varVar [⟨namePattern n, some e⟩]) (u :: us) :=
    hbindings.bind (Yields.semicolon.bind .pure)
  have hdeclaration : Begins (g.step.declaration? false) (v :: name n :: mark .eq :: t :: ts)
      (some (.vars .varVar [⟨namePattern n, some e⟩])) (u :: us) := by
    refine .get fun previous => .no ?_ (.no ?_ (.yes ?_ (hdecl.bind .pure)))
    · simp [Cursor.seesKeyword, Cursor.seesAsyncFunction, Cursor.seesWord, Cursor.on, Cursor.sees,
        hk]
    · simp [Cursor.seesKeyword, Cursor.on, Cursor.sees, hk]
    · simp [Cursor.on, hk, VarKind.ofToken?]
  have hform : Begins g.step.statementForm (v :: name n :: mark .eq :: t :: ts)
      (.decl (.vars .varVar [⟨namePattern n, some e⟩])) (u :: us) := hdeclaration.bind .pure
  exact .here hs (hform.bind (Yields.spanFrom.bind .pure))

/-- The kinds of tokens that start a declaration or a statement that is no expression, unless they
are names. -/
def statementStarts : List TokenKind :=
  [.punct .lBrace, .punct .semicolon] ++ ([.functionKw, .classKw, .letKw, .constKw, .varKw,
    .ifKw, .forKw, .whileKw, .doKw, .switchKw, .returnKw, .breakKw, .continueKw, .throwKw, .tryKw,
    .debuggerKw, .importKw, .exportKw, .withKw].map .keyword)

/-- A statement that consists of an expression. -/
theorem yields_expressionItem {e : Expr} (hs : t.span = .nowhere) (ht : t.kind ∉ statementStarts)
    (hname : t.kind = .identifier →
      ∀ v ∈ ts.head?, v.kind ∉ [.punct .colon, .keyword .functionKw])
    (h : Yields (g.readExpression 1) (t :: ts) e (mark .semicolon :: u :: us)) :
    Yields g.item (t :: ts) ⟨.nowhere, .stmt ⟨.nowhere, .expr e⟩⟩ (u :: us) := by
  have hkind : ∀ kind ∈ statementStarts, t.kind ≠ kind := fun kind hk he => ht (he ▸ hk)
  have hsees (previous : Token) {k : Keyword} (hk : .keyword k ∈ statementStarts) :
      (Cursor.on previous (t :: ts)).seesKeyword k = false := by
    simp [Cursor.seesKeyword, Cursor.sees, Cursor.on, hkind _ hk]
  have hsecond (previous : Token) (hid : t.kind = .identifier) {kind : TokenKind}
      (hk : kind ∈ [.punct .colon, .keyword .functionKw]) :
      ((Cursor.on previous (t :: ts)).secondKind? == some kind) = false := by
    rw [beq_eq_false_iff_ne]
    intro hs
    obtain ⟨v, hv, rfl⟩ := Option.map_eq_some_iff.mp hs
    exact hname hid v hv hk
  have hasync (previous : Token) :
      (Cursor.on previous (t :: ts)).seesAsyncFunction = false := by
    by_cases hid : t.kind = .identifier
    · rw [Cursor.seesAsyncFunction, hsecond _ hid (by decide), Bool.and_false, Bool.false_and]
    · simp [Cursor.seesAsyncFunction, Cursor.seesWord, Cursor.on, hid]
  have himport (previous : Token) : seesImport (.on previous (t :: ts)) = false := by
    simp [seesImport, Cursor.on, hkind (.keyword .importKw) (by decide)]
  have hexpression : Yields g.expressionStatement (t :: ts) (.expr e) (u :: us) :=
    (yields_sequence h (by rintro ⟨⟩)).bind (Yields.semicolon.bind .pure)
  have hdeclaration : Yields (g.declaration? false) (t :: ts) none (t :: ts) := by
    refine .get fun previous => .no ?_ (.no (hsees _ (by decide)) (.no ?_ .pure))
    · rw [hsees _ (by decide), hasync]
      rfl
    · have hc : (Cursor.on previous (t :: ts)).current = t := rfl
      rw [hc]
      unfold VarKind.ofToken?
      split <;> simp_all [statementStarts]
  have hsimple : Yields g.simpleStatement (t :: ts) (.expr e) (u :: us) := by
    refine .get fun previous => ?_
    have hc : (Cursor.on previous (t :: ts)).current = t := rfl
    have hlabel : (t.kind == .identifier
        && (Cursor.on previous (t :: ts)).secondKind? == some (.punct .colon)) = false := by
      by_cases hid : t.kind = .identifier
      · rw [hsecond _ hid (by decide), Bool.and_false]
      · simp [hid]
    simp only [hc]
    split
    case h_16 => exact .no (himport previous) (.no hlabel hexpression)
    all_goals exact absurd ‹_› (hkind _ (by decide))
  have hform : Yields g.statementForm (t :: ts) (.expr e) (u :: us) := hdeclaration.bind hsimple
  have hstatement : Yields g.readStatement (t :: ts) ⟨.nowhere, .expr e⟩ (u :: us) :=
    (Yields.here hs).bind (hform.bind (Yields.spanFrom.bind .pure))
  have hitem : Yields g.itemForm (t :: ts) (.stmt ⟨.nowhere, .expr e⟩) (u :: us) := by
    refine .get fun previous => .no (himport previous) (.no ?_ hstatement.map)
    simp [Cursor.on, hkind (.keyword .exportKw) (by decide)]
  exact (Yields.here hs).bind (hitem.bind (Yields.spanFrom.bind .pure))

end Grammar
end ModuleBundler
