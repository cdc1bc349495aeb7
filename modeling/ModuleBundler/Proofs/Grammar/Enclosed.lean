import ModuleBundler.Proofs.Grammar.Hosted
import ModuleBundler.Proofs.Grammar.Single

/-! A script of its own among the statements of another one. -/
namespace ModuleBundler
open ModuleBundler.Parser

/-- Only the last token is an end mark. -/
theorem Scanner.kind_ne_eof (s : Scanner) (cs : List Char) :
    ∀ t ∈ (s.tokens cs).dropLast, t.kind ≠ .eof := by
  induction s, cs using text_induction with
  | nil s cs hg => simp [tokens_nil hg]
  | cons s gap c rest hg ih =>
    rw [dropLast_tokens_cons hg]
    exact List.forall_mem_cons.mpr ⟨s.lexeme_ne_eof c rest, ih⟩

/-- The tokens before an end mark are all tokens but the last one. -/
theorem eq_of_ends {ts w us : List Token} {e t : Token} (h : ts ++ [e] = w ++ t :: us)
    (ht : t.kind = .eof) (hts : ∀ u ∈ ts, u.kind ≠ .eof) : w = ts := by
  obtain ⟨u, rfl, hu⟩ | ⟨u, rfl, hu⟩ := List.append_eq_append_iff.mp h
  · rcases List.cons_eq_append_iff.mp hu with ⟨rfl, -⟩ | ⟨u, rfl, hu⟩
    · rw [List.append_nil]
    · cases u <;> cases hu
  · cases u with
    | nil => rw [List.append_nil]
    | cons v u =>
      obtain rfl := (List.cons.inj hu).1
      exact absurd ht (hts _ (by simp))

/-- The statements at the top level. -/
def Program.statements (p : Program) : List Stmt :=
  p.items.filterMap fun i =>
    match i.form with
    | .stmt s => some s
    | _ => none

theorem Program.statements_of_items {p : Program} {sts : List Stmt}
    (h : p.items = sts.map fun st => ⟨st.span, .stmt st⟩) : p.statements = sts := by
  rw [statements, h, List.filterMap_map]
  exact List.filterMap_some

/-- The tokens are read as a script without import and export declarations, if an end mark follows
them. -/
structure ReadAs (ts : List Token) (p : Program) : Prop where
  read : ∃ e : Token, e.kind = .eof ∧ Program.ofTokens (ts ++ [e]) = .ok p
  plain : p.hasModuleSyntax = false
  kinds : ∀ t ∈ ts, t.kind ≠ .eof

section Followed
variable {ts : List Token} {e : Token} {q : Sequel} {s : List Bracket}

theorem Followed.of_run (he : e.kind = .eof) (h : Bracket.run s ts = some []) :
    Followed q true s (ts ++ [e]) (ts ++ q.first :: q.rest) := by
  induction ts generalizing s with
  | nil =>
    obtain rfl := Option.some.inj h
    exact .stop he
  | cons t ts ih =>
    obtain ⟨s', hs, hr⟩ := Bracket.run_cons h
    exact .cons ⟨rfl, rfl, rfl, fun _ => rfl⟩ hs (ih hr)

/-- Inside another script the first token of a script starts a line. -/
theorem Followed.startLine (he : e.kind = .eof) (h : Bracket.run s ts = some []) :
    Followed q false s (ts ++ [e]) (startLine (ts ++ q.first :: q.rest)) := by
  cases ts with
  | nil =>
    have hq : ({ q.first with newlineBefore := true } : Token) = q.first := by
      rw [← q.newline]
    rw [List.nil_append, List.nil_append, ModuleBundler.startLine, hq]
    exact (of_run he h).mono
  | cons t ts =>
    obtain ⟨s', hs, hr⟩ := Bracket.run_cons h
    exact .cons ⟨rfl, rfl, rfl, by rintro ⟨⟩⟩ hs (of_run he hr)

end Followed

namespace ReadAs
variable {ts : List Token} {p : Program} (h : ReadAs ts p)
include h

/-- What is read as a script is read to its end, from items that are statements. -/
theorem items : ∃ (e v : Token) (vs : List Token), e.kind = .eof ∧ ts ++ [e] = v :: vs ∧
    (⟨v, v, vs⟩ : Cursor).Ended ∧ vs.length = ts.length ∧
    let parsed := (Grammar.nested (vs.length + 1)).items ⟨v, v, vs⟩
    parsed.errors = [] ∧ p.items = parsed.items ∧
      ∀ i ∈ parsed.items, i.isModuleSyntax = false := by
  obtain ⟨e, he, hr⟩ := h.read
  obtain ⟨hn, rfl⟩ := Program.ofTokens_ok.mp hr
  obtain ⟨v, vs, hv⟩ : ∃ v vs, ts ++ [e] = v :: vs := by cases ts <;> exact ⟨_, _, rfl⟩
  have hl : ((v :: vs).getLast?.map Token.kind) = some .eof := by simp [← hv, he]
  have hp := h.plain
  rw [hv, Cursor.ofTokens_ended hl] at hn hp ⊢
  refine ⟨e, v, vs, he, hv, hl, ?_, hn, rfl, ?_⟩
  · have := congrArg List.length hv
    simpa using this.symm
  · simpa [Program.hasModuleSyntax] using hp

/-- The brackets of a script are balanced. -/
theorem run : Bracket.run [] ts = some [] := by
  obtain ⟨e, v, vs, he, hv, hl, -, hn, -⟩ := h.items
  obtain ⟨c', hr, hend⟩ := (Grammar.accounts_nested _).items ⟨v, v, vs⟩ hl hn
  obtain ⟨w, hw, hrun, -⟩ := hr hl
  have hts : ts ++ [e] = w ++ c'.current :: c'.ahead := hv.trans hw.tokens
  have hk : c'.current.kind = .eof := by simpa [Cursor.atEnd] using hend
  rwa [eq_of_ends hts hk h.kinds] at hrun

/-- The statements of a script are read among the statements of another one, up to a token that
follows them there. -/
theorem statements_within {q : Sequel} {k : Nat} (hk : ts.length ≤ k) (previous : Token) :
    ∃ last, ∀ read,
      (Grammar.nested (k + 1)).statements read true
          (.on previous (startLine (ts ++ q.first :: q.rest)))
        = (Grammar.nested (k + 1)).statements (p.statements.reverse ++ read) true
          (.on last (q.first :: q.rest)) := by
  obtain ⟨e, v, vs, he, hv, -, hl, hn, hp, hi⟩ := h.items
  obtain ⟨u, us, hu⟩ : ∃ u us, startLine (ts ++ q.first :: q.rest) = u :: us := by
    cases ts <;> exact ⟨_, _, rfl⟩
  have hf := Followed.startLine (q := q) he h.run
  rw [hv, hu] at hf
  have hg := Lockstep.parts_hosting q (Nat.le_succ vs.length) (Nat.le_trans (Nat.le_of_eq hl) hk)
  have hc : Cursor.Hosted q vs.length false [] ⟨v, v, vs⟩ ⟨previous, u, us⟩ :=
    ⟨Nat.le_refl _, hf, by rintro ⟨⟩⟩
  obtain ⟨sts, last, hs, hr⟩ := Grammar.items_hosted hg hc hi hn
  rw [hu, Program.statements_of_items (hp.trans hs)]
  exact ⟨last, hr⟩

end ReadAs

namespace Grammar
variable {g : Grammar} {t u : Token} {ts us : List Token}

/-- After a statement the next ones follow. -/
theorem statements_begins {st : Stmt} (h : Begins g.statement (t :: ts) st (u :: us))
    (hk : t.kind ≠ .punct .rBrace) (he : t.kind ≠ .eof) (hl : us.length < ts.length)
    (previous : Token) : ∃ last, ∀ read,
      g.statements read true (.on previous (t :: ts))
        = g.statements (st :: read) true (.on last (u :: us)) := by
  obtain ⟨last, -, h⟩ := h previous
  refine ⟨last, fun read => statements_next ?_ h hl⟩
  simp [Cursor.on, Cursor.seesMark, Cursor.sees, Cursor.atEnd, hk, he]

/-- Statements end at a closing brace. -/
theorem manyUntil_statements {c : Cursor} {last : Token} {sts : List Stmt}
    (hk : t.kind = .punct .rBrace)
    (h : g.statements [] true c = g.statements sts.reverse true (.on last (t :: ts))) :
    manyUntil .rBrace g.statement true c = .ok sts (.on last (t :: ts)) := by
  have hc : (!(Cursor.on last (t :: ts)).seesMark .rBrace
      && !(Cursor.on last (t :: ts)).atEnd) = false := by
    simp [Cursor.on, Cursor.seesMark, Cursor.sees, Cursor.atEnd, hk]
  have hs : g.statements sts.reverse true (.on last (t :: ts))
      = .ok sts.reverse (.on last (t :: ts)) := by
    rw [statements, iterate, hc]
    rfl
  refine bind_ok.mpr ⟨sts.reverse, _, h.trans hs, ?_⟩
  rw [List.reverse_reverse]
  rfl

end Grammar
end ModuleBundler
