import ModuleBundler.Proofs.Grammar.LockstepStatement

/-! Reading a script of its own and the same tokens inside another script side by side. There they
are followed, on a new line, by a closing brace or by a word that starts a statement and goes on
with no expression. What is read from a place depends on no token after the script. -/
namespace ModuleBundler
open EStateM (Result)

/-- What follows a script that stands inside another one. -/
structure Sequel where
  first : Token
  rest : List Token
  newline : first.newlineBefore = true
  follows : first.kind.follows = true

variable {q : Sequel} {n : Nat} {m : Bool} {s s' : List Bracket}

/-- The two tokens are the same, perhaps but for the line before them. -/
structure Token.Like (m : Bool) (t t' : Token) : Prop where
  kind : t'.kind = t.kind
  span : t'.span = t.span
  value : t'.value = t.value
  newline : m = true → t'.newlineBefore = t.newlineBefore

/-- The tokens of a script up to its end, and the same tokens with what follows them elsewhere;
`s` are the brackets that are open before them, and `m` says that the first ones are the same in
all respects. -/
inductive Followed (q : Sequel) : Bool → List Bracket → List Token → List Token → Prop where
  | stop {m : Bool} {t : Token} : t.kind = .eof → Followed q m [] [t] (q.first :: q.rest)
  | cons {m : Bool} {s s' : List Bracket} {t t' : Token} {ts ts' : List Token} :
      t.Like m t' → Bracket.step s t.kind = some s' → Followed q true s' ts ts' →
      Followed q m s (t :: ts) (t' :: ts')

namespace Followed
variable {ts ts' : List Token}

theorem length (h : Followed q m s ts ts') : ts'.length = ts.length + q.rest.length := by
  induction h with
  | stop => simp [Nat.add_comm]
  | cons _ _ _ ih => simp [ih, Nat.add_right_comm]

theorem ended (h : Followed q m s ts ts') : (ts.getLast?.map Token.kind) = some .eof := by
  induction h with
  | stop h => simp [h]
  | @cons _ _ _ t _ ts _ _ _ _ ih =>
    rw [List.getLast?_cons, Option.map_some]
    cases hl : ts.getLast? with
    | none => rw [hl] at ih; cases ih
    | some u => rw [hl] at ih; exact ih

theorem mono (h : Followed q true s ts ts') : Followed q m s ts ts' := by
  cases h with
  | stop h => exact .stop h
  | cons like step tail =>
    exact .cons ⟨like.kind, like.span, like.value, fun _ => like.newline rfl⟩ step tail

end Followed

/-- A place in a script and the same place inside another script. At most `n` tokens are left,
and one less if `m` says that a token has been read. -/
structure Cursor.Hosted (q : Sequel) (n : Nat) (m : Bool) (s : List Bracket) (c d : Cursor) :
    Prop where
  room : c.ahead.length + m.toNat ≤ n
  tokens : Followed q m s (c.current :: c.ahead) (d.current :: d.ahead)
  previous : m = true → d.previous.span = c.previous.span

namespace Cursor.Hosted
variable {c d : Cursor}

theorem ended (t : c.Hosted q n m s d) : c.Ended := t.tokens.ended

theorem ahead_length (t : c.Hosted q n m s d) :
    d.ahead.length = c.ahead.length + q.rest.length := by
  have h := t.tokens.length
  simp only [List.length_cons] at h
  omega

theorem mono (t : c.Hosted q n true s d) : c.Hosted q n m s d where
  room := by
    have := t.room
    have := m.toNat_le
    simp only [Bool.toNat_true] at *
    omega
  tokens := t.tokens.mono
  previous _ := t.previous rfl

/-- A token that has been read makes room for the parts that come next. -/
theorem inner (t : c.Hosted q (n + 1) true s d) : c.Hosted q n false s d where
  room := Nat.le_of_succ_le_succ t.room
  tokens := t.tokens.mono
  previous := by rintro ⟨⟩

theorem outer (t : c.Hosted q n true s d) : c.Hosted q (n + 1) true s d :=
  ⟨Nat.le_succ_of_le t.room, t.tokens, t.previous⟩

/-- The script is at its end, and the other one goes on; or both go on with the same token. -/
theorem cases (t : c.Hosted q n m s d) :
    (c.atEnd = true ∧ s = [] ∧ d.current = q.first ∧ d.ahead = q.rest) ∨
      (c.atEnd = false ∧ c.current.Like m d.current ∧
        ∃ s', Bracket.step s c.current.kind = some s' ∧ Followed q true s' c.ahead d.ahead) := by
  obtain ⟨previous, current, ahead⟩ := c
  obtain ⟨previous', current', ahead'⟩ := d
  cases t.tokens with
  | stop h =>
    have he : current.kind = .eof := h
    exact .inl ⟨by simp [Cursor.atEnd, he], rfl, rfl, rfl⟩
  | cons like step tail =>
    refine .inr ⟨?_, like, _, step, tail⟩
    simp only [Cursor.atEnd, beq_eq_false_iff_ne]
    rintro he
    rw [he] at step
    cases step

theorem like (t : c.Hosted q n m s d) (h : c.atEnd = false) : c.current.Like m d.current := by
  rcases t.cases with ⟨he, -⟩ | ⟨-, like, -⟩
  · rw [h] at he
    cases he
  · exact like

theorem next (t : c.Hosted q n m s d) (h : c.atEnd = false)
    (hs : Bracket.step s c.current.kind = some s') : c.next.Hosted q n true s' d.next := by
  rcases t.cases with ⟨he, -⟩ | ⟨-, like, s₁, hs₁, tail⟩
  · rw [h] at he
    cases he
  obtain rfl : s₁ = s' := Option.some.inj (hs₁.symm.trans hs)
  have hd : d.atEnd = false := by rw [← h, Cursor.atEnd, Cursor.atEnd, like.kind]
  have hroom := t.room
  obtain ⟨previous, current, ahead⟩ := c
  obtain ⟨previous', current', ahead'⟩ := d
  have hspan : current'.span = current.span := like.span
  cases tail with
  | stop he =>
    rw [Cursor.next, h, Cursor.next, hd]
    exact ⟨by simp at hroom ⊢; omega, .stop he, fun _ => hspan⟩
  | cons like' step' tail' =>
    rw [Cursor.next, h, Cursor.next, hd]
    exact ⟨by simp at hroom ⊢; omega, .cons like' step' tail', fun _ => hspan⟩

theorem previous_next (t : c.Hosted q n m s d) (h : c.atEnd = false) :
    c.next.previous = c.current ∧ d.next.previous = d.current := by
  have hd : d.atEnd = false := by rw [← h, Cursor.atEnd, Cursor.atEnd, (t.like h).kind]
  refine ⟨Cursor.previous_next t.ended h, ?_⟩
  rcases t.cases with ⟨he, -⟩ | ⟨-, -, s', -, tail⟩
  · rw [h] at he
    cases he
  have hl : 0 < d.ahead.length := by
    generalize c.ahead = ts at tail
    generalize d.ahead = ts' at tail
    cases tail <;> exact Nat.succ_pos _
  obtain ⟨u, us, hu⟩ := List.exists_cons_of_length_pos hl
  rw [Cursor.next, hu, hd]
  rfl

/-- After a token the script is at its end and the other one goes on in a new line, or the tokens
after it are the same. -/
theorem second (t : c.Hosted q n m s d) (h : c.atEnd = false) :
    (d.secondKind? = c.secondKind? ∧ d.newlineBeforeSecond = c.newlineBeforeSecond) ∨
      c.StopsNext s d := by
  rcases t.cases with ⟨hend, -⟩ | ⟨-, -, s₁, hs, tail⟩
  · rw [h] at hend
    cases hend
  obtain ⟨previous, current, ahead⟩ := c
  obtain ⟨previous', current', ahead'⟩ := d
  cases tail with
  | stop he => exact .inr ⟨hs, congrArg some he, ⟨_, rfl, q.follows⟩, q.newline⟩
  | cons like _ _ => exact .inl ⟨congrArg some like.kind, like.newline rfl⟩

/-- The tokens of a script and what follows them elsewhere. -/
theorem view (t : c.Hosted q n m s d) : c.Matches .exact m d ∨ c.Stopped True s d := by
  rcases t.cases with ⟨hend, hs, hd, -⟩ | ⟨-, like, -⟩
  · exact .inr ⟨trivial, hs, hend, hd ▸ q.follows, hd ▸ q.newline⟩
  · exact .inl ⟨like.kind, like.value, like.newline, like.span.symm⟩

theorem text (t : c.Hosted q n m s d) (h : c.current.kind.isText = true) :
    d.current.kind.isText = true ∧
      (⟨c.current.span, c.current.textForm⟩ : Expr) = ⟨d.current.span, d.current.textForm⟩ := by
  have hend : c.atEnd = false := by
    rw [Cursor.atEnd, beq_eq_false_iff_ne]
    intro hk
    rw [hk] at h
    cases h
  have like := t.like hend
  refine ⟨like.kind ▸ h, ?_⟩
  rw [Token.textForm, Token.textForm, like.kind, like.value, like.span]

end Cursor.Hosted

/-- A script of its own and the same tokens inside another one. Errors of a script that ends too
early do not matter, since inside the other one it may be read on. -/
def Lockstep.hosting (q : Sequel) : Lockstep where
  likeness := .exact
  loses := True
  offset := q.rest.length
  At n m _ s c d := c.Hosted q n m s d
  Err _ _ _ _ := True
  ended t := t.ended
  room t := t.room
  ahead_length t := t.ahead_length
  weaken t := t.mono
  inner t := t.inner
  outer t := t.outer
  next t h hs := t.next h hs
  next_apart t h hs _ := t.next h hs
  previous_next t h := (t.previous_next h).2
  view t := t.view.imp_right .inr
  text t h := t.text h
  second t h _ := t.second h
  previous t := (t.previous rfl).symm
  fault _ _ := trivial
  importFault _ _ := trivial

/-- The bound on the nesting does not matter if it is no less than the number of tokens. -/
theorem Lockstep.parts_hosting (q : Sequel) {k k' : Nat} (hk : n ≤ k) (hk' : n ≤ k') :
    (hosting q).Parts n (Grammar.nested k) (Grammar.nested k') :=
  parts_nested (fun j => targets_of_err (fun _ _ _ _ => trivial) (Grammar.nested j)) hk hk'

namespace Grammar
open ModuleBundler.Parser

/-- An item that is no module syntax is a statement. -/
theorem item_stmt {g : Grammar} {b : Bool} {c' : Cursor} {i : Item}
    (hi : i.isModuleSyntax = false) (h : g.item b c = .ok i c') :
    ∃ st, g.readStatement b c = .ok st c' ∧ i = ⟨st.span, .stmt st⟩ := by
  simp only [Grammar.item, Grammar.itemForm, bind_ok, here_ok, get_ok, if_apply, spanFrom_ok,
    pure_ok] at h
  obtain ⟨_, _, ⟨rfl, rfl⟩, form, c₁, ⟨_, _, ⟨rfl, rfl⟩, h⟩, _, _, ⟨rfl, rfl⟩, rfl, rfl⟩ := h
  split at h
  · obtain ⟨d, -, rfl⟩ := map_ok.mp h
    cases hi
  split at h
  · obtain ⟨d, -, rfl⟩ := map_ok.mp h
    cases hi
  · obtain ⟨st, hs, rfl⟩ := map_ok.mp h
    refine ⟨st, hs, ?_⟩
    simp only [Grammar.readStatement, bind_ok, here_ok, spanFrom_ok, pure_ok] at hs
    obtain ⟨_, _, ⟨rfl, rfl⟩, form, c₂, -, _, _, ⟨rfl, rfl⟩, rfl, rfl⟩ := hs
    rfl

/-- Statements up to a closing brace, the last one first, after others that have been read. -/
def statements (g : Grammar) (read : List Stmt) : Parser (List Stmt) :=
  iterate (fun c => !c.seesMark .rBrace && !c.atEnd) (fun sts => return (← g.statement) :: sts) read

theorem statements_next {g : Grammar} {read : List Stmt} {b : Bool} {st : Stmt} {c' : Cursor}
    (hc : (!c.seesMark .rBrace && !c.atEnd) = true) (h : g.statement b c = .ok st c')
    (hl : c'.ahead.length < c.ahead.length) :
    g.statements read b c = g.statements (st :: read) b c' := by
  rw [statements, iterate, if_pos hc, bind_apply, h]
  exact if_pos hl

/-- Inside another script a statement is not where that script has a closing brace. -/
theorem goesOn_hosted {c d : Cursor} (t : c.Hosted q n m [] d) (hend : c.atEnd = false) :
    (!d.seesMark .rBrace && !d.atEnd) = true := by
  rcases t.cases with ⟨he, -⟩ | ⟨-, like, s', hs, -⟩
  · rw [hend] at he
    cases he
  have hk : c.current.kind ≠ .punct .rBrace := by
    intro hk
    rw [hk] at hs
    cases hs
  have hd : d.atEnd = false := by rw [← hend, Cursor.atEnd, Cursor.atEnd, like.kind]
  simp [Cursor.seesMark, Cursor.sees, hd, like.kind, hk]

/-- A script that is read without errors is read inside another one up to what follows it there. -/
theorem items_hosted {g g' : Grammar} (hg : (Lockstep.hosting q).Parts n g g')
    {c d : Cursor} (t : c.Hosted q n m [] d)
    (hi : ∀ i ∈ (g.items c).items, i.isModuleSyntax = false) (he : (g.items c).errors = []) :
    ∃ (sts : List Stmt) (previous : Token),
      (g.items c).items = sts.map (fun st => ⟨st.span, .stmt st⟩) ∧
      ∀ read, g'.step.statements read true d
        = g'.step.statements (sts.reverse ++ read) true ⟨previous, q.first, q.rest⟩ := by
  fun_induction Grammar.items g c generalizing m d with
  | case1 c hend =>
    rcases t.cases with ⟨-, -, hd, hr⟩ | ⟨hn, -⟩
    · refine ⟨[], d.previous, rfl, fun read => ?_⟩
      rw [← hd, ← hr]
      rfl
    · rw [hend] at hn
      cases hn
  | case2 c hend i c₁ h hl =>
    rename_i ih
    obtain ⟨st, hst, rfl⟩ := item_stmt (hi i (by simp)) h
    have hd := hg.readStatement (b := true) t
    rw [hst] at hd
    generalize hd' : g'.readStatement true d = r at hd
    cases hd with
    | ok hst' t₁ =>
      obtain rfl := hst'
      obtain ⟨sts, previous, hs, hr⟩ := ih t₁ (fun j hj => hi j (List.mem_cons_of_mem _ hj)) he
      refine ⟨st :: sts, previous, congrArg (_ :: ·) hs, fun read => ?_⟩
      rw [statements_next (goesOn_hosted t (Bool.eq_false_iff.mpr hend)) hd'
        (by rw [t₁.ahead_length, t.ahead_length]; omega), hr]
      simp
  | case3 c hend i c₁ h hl =>
    obtain ⟨w, hw, hm⟩ := ((hg.accounts trivial).item h).2.takes.moves t.ended
    have := hw.length
    have := hm rfl
    omega
  | case4 | case5 => simp at he

end Grammar
end ModuleBundler
