import ModuleBundler.Proofs.Grammar.LockstepStatement
import ModuleBundler.Proofs.Grammar.Twin

/-! A script of statements is read alike from twin tokens: what is put together is the same but for
its spans and for the answered texts. -/
namespace ModuleBundler
open EStateM (Result)

variable {a : Answers} {n : Nat} {m p : Bool} {s : List Bracket} {c d : Cursor}

/-- Two twin places. At most `n` tokens are left, and one less if `m` says that a token has been
read; the next one is no argument if `p` says so. -/
structure Cursor.Paired (a : Answers) (n : Nat) (m p : Bool) (c d : Cursor) : Prop where
  room : c.ahead.length + m.toNat ≤ n
  twin : c.Twin a d
  apart : p = true → c.previous.isArgument c.current = false

namespace Cursor.Paired

theorem mono (t : c.Paired a n true true d) : c.Paired a n m p d where
  room := Nat.le_trans (Nat.add_le_add_left m.toNat_le _) t.room
  twin := t.twin
  apart _ := t.apart rfl

theorem next (t : c.Paired a n m p d) (h : c.atEnd = false) :
    c.next.Paired a n true false d.next where
  room := by
    have := t.room
    have hl : c.ahead.length = 1 + c.next.ahead.length := (moves_next t.twin.ended h).length
    rw [Bool.toNat_true]
    omega
  twin := (t.twin.next h).1
  apart := by rintro ⟨⟩

theorem next_apart (t : c.Paired a n m p d) (h : c.atEnd = false)
    (hp : c.current.kind ≠ .punct .lParen) : c.next.Paired a n true true d.next where
  room := (t.next h).room
  twin := (t.next h).twin
  apart _ := by
    rw [(t.twin.next h).2.1, Token.isArgument, beq_false_of_ne hp, Bool.false_and]

/-- An argument may be answered. Any other token stays. -/
theorem view (t : c.Paired a n m p d) :
    c.Matches (.upTo a) m d ∨ (p = false ∧ c.Answered (.upTo a) d) := by
  cases t.twin.current with
  | same kind value newline _ => exact .inl ⟨kind, value, fun _ => newline, rfl⟩
  | answered argument _ kind newline =>
    refine .inr ⟨?_, ?_, kind, newline, rfl⟩
    · cases p with
      | false => rfl
      | true => exact absurd argument (Bool.eq_false_iff.mp (t.apart rfl))
    · rw [Token.isArgument, Bool.and_eq_true] at argument
      exact argument.2

/-- A text is like the text in its place. -/
theorem text (t : c.Paired a n m p d) (h : c.current.kind.isText = true) :
    d.current.kind.isText = true ∧ (Likeness.upTo a).Like
      (⟨c.current.span, c.current.textForm⟩ : Expr) ⟨d.current.span, d.current.textForm⟩ := by
  have hform (t : Token) : t.textForm.isText = true := by
    unfold Token.textForm
    split <;> rfl
  cases t.twin.current with
  | same kind value _ unanswered =>
    have hsame : d.current.textForm = c.current.textForm := by
      rw [Token.textForm, Token.textForm, kind, value]
    refine ⟨kind ▸ h, congrArg (Expr.mk .nowhere) ?_⟩
    rw [hsame, ExprForm.bare_unanswered (hform _) (unanswered h)]
  | answered _ answer kind =>
    have hstring : d.current.textForm = .string d.current.value := by
      rw [Token.textForm, if_pos kind]
    refine ⟨by rw [kind]; rfl, congrArg (Expr.mk .nowhere) ?_⟩
    rw [hstring, ExprForm.bare_answered (hform _) answer]
    rfl

end Cursor.Paired

/-- Twin tokens. The errors do not matter. -/
def Lockstep.pairing (a : Answers) : Lockstep where
  likeness := .upTo a
  loses := False
  offset := 0
  At n m p _ c d := c.Paired a n m p d
  Err _ _ _ _ := True
  ended t := t.twin.ended
  room t := t.room
  ahead_length t := t.twin.ahead_length
  weaken t := t.mono
  inner t := ⟨Nat.le_of_succ_le_succ t.room, t.twin, t.apart⟩
  outer t := ⟨Nat.le_succ_of_le t.room, t.twin, t.apart⟩
  next t h _ := t.next h
  next_apart t h _ hp := t.next_apart h hp
  previous_next t h := (t.twin.next h).2.2
  view t := t.view.imp_right .inl
  text t h := t.text h
  second t _ hp := .inl ⟨t.twin.second_eq hp, t.twin.newlineBeforeSecond⟩
  previous _ := rfl
  fault _ _ := trivial
  importFault _ _ := trivial

theorem Lockstep.parts_pairing (a : Answers) (n k : Nat) :
    (pairing a).Parts n (Grammar.nested k) (Grammar.nested k) :=
  parts_self (fun j => targets_of_err (fun _ _ _ _ => trivial) (Grammar.nested j)) n k

namespace Grammar

/-- What is read without errors is read alike from a twin place. -/
theorem items_paired {g : Grammar} (hg : (Lockstep.pairing a).Parts n g g)
    (t : c.Paired a n m true d) (he : (g.items c).errors = []) :
    (g.items d).errors = []
      ∧ (g.items d).items.map (Item.bare .none) = (g.items c).items.map (Item.bare a) := by
  have hitem {m : Bool} {c d : Cursor} {i : Item} {c₁ : Cursor} (t : c.Paired a n m true d)
      (h : g.item true c = .ok i c₁) : ∃ i' d₁, g.item true d = .ok i' d₁ ∧
        i.bare a = i'.bare .none ∧ c₁.Paired a n true true d₁ := by
    have hr := hg.item (s := []) (b := true) t fun h => h.loses
    rw [h] at hr
    generalize g.item true d = r at hr ⊢
    cases hr with
    | ok hb t => exact ⟨_, _, rfl, hb, t⟩
  fun_induction Grammar.items g c generalizing m d with
  | case1 c hend =>
    rw [Grammar.items.eq_def g d, if_pos (by rw [t.twin.atEnd, hend])]
    exact ⟨rfl, rfl⟩
  | case2 c hend i c₁ h hl rest =>
    rename_i ih
    obtain ⟨i', d₁, h', hb, t₁⟩ := hitem t h
    obtain ⟨hr, hm⟩ := ih t₁ he
    rw [Grammar.items.eq_def g d, if_neg (by rw [t.twin.atEnd]; exact hend), h']
    dsimp only
    rw [if_pos (by rw [t₁.twin.ahead_length, t.twin.ahead_length]; exact hl)]
    exact ⟨hr, by rw [List.map_cons, List.map_cons, hm, hb]⟩
  | case3 c hend i c₁ h hl =>
    obtain ⟨i', d₁, h', hb, t₁⟩ := hitem t h
    rw [Grammar.items.eq_def g d, if_neg (by rw [t.twin.atEnd]; exact hend), h']
    dsimp only
    rw [if_neg (by rw [t₁.twin.ahead_length, t.twin.ahead_length]; exact hl)]
    exact ⟨rfl, by rw [List.map_cons, List.map_cons, hb]; rfl⟩
  | case4 | case5 => simp at he

end Grammar

/-- The first token is no argument. -/
theorem Cursor.isArgument_ofTokens (tokens : List Token) :
    (ofTokens tokens).previous.isArgument (ofTokens tokens).current = false := by
  have hself (t : Token) : t.isArgument t = false := by
    rw [Token.isArgument]
    generalize t.kind = kind
    cases kind <;> first | rfl | exact Bool.and_false _
  have hstart : (ofTokens tokens).previous = (ofTokens tokens).current := by
    unfold ofTokens
    split
    · rfl
    · split <;> rfl
  rw [hstart, hself]

/-- A source stays readable with twins in place of its tokens, and stays the same but for its spans
and for the answered texts. -/
theorem Program.ofTokens_twin {tokens tokens' : List Token} {program : Program}
    (t : (Cursor.ofTokens tokens).Twin a (Cursor.ofTokens tokens'))
    (h : Program.ofTokens tokens = .ok program) :
    ∃ program', Program.ofTokens tokens' = .ok program' ∧
      program'.bare .none = program.bare a := by
  obtain ⟨he, rfl⟩ := Program.ofTokens_ok.mp h
  obtain ⟨he', hm⟩ := Grammar.items_paired (m := false) (Lockstep.parts_pairing a _ _)
    ⟨Nat.le_refl _, t, fun _ => Cursor.isArgument_ofTokens tokens⟩ he
  refine ⟨_, Program.ofTokens_ok.mpr ⟨?_, rfl⟩, ?_⟩
  · rw [t.ahead_length]
    exact he'
  · rw [Program.bare, Program.bare, t.ahead_length]
    exact congrArg (Program.mk .nowhere) hm

end ModuleBundler
