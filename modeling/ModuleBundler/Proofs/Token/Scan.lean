import ModuleBundler.Proofs.Token.Gap
import ModuleBundler.Token.Stream

/-! Reading a text token by token: the tokens stand in order, and the last one is the end mark. -/
namespace ModuleBundler
open ModuleBundler.Text

namespace Scanner
variable {s : Scanner} {c : Char} {cs gap rest : List Char}

theorem tokens_nil (h : Lexeme.gap cs = cs) :
    s.tokens cs = [⟨.eof, ⟨s.offset + byteSize cs, s.offset + byteSize cs⟩, "",
      cs.any isLineTerminator⟩] := by
  rw [tokens]
  split
  · rw [h]
  · next hd => 
    rw [h, List.drop_length] at hd
    cases hd

theorem tokens_cons (h : Lexeme.gap (gap ++ c :: rest) = gap) :
    s.tokens (gap ++ c :: rest) = s.token gap c rest ::
      (s.after (s.token gap c rest) c).tokens (rest.drop ((s.lexeme c rest).size - 1)) := by
  rw [tokens]
  split
  · next hd => 
    rw [h, List.drop_left] at hd
    cases hd
  · next hd =>
    rw [h, List.drop_left] at hd
    obtain ⟨rfl, rfl⟩ := List.cons.inj hd
    rw [h]

/-- A text has no token left, or it is a gap, a token and more text. -/
theorem text_cases (cs : List Char) : Lexeme.gap cs = cs
    ∨ ∃ gap c rest, cs = gap ++ c :: rest ∧ Lexeme.gap (gap ++ c :: rest) = gap := by
  obtain ⟨r, hr⟩ := Lexeme.prefix_gap cs
  cases r with
  | nil => exact .inl (by simpa using hr)
  | cons c rest => exact .inr ⟨Lexeme.gap cs, c, rest, hr.symm, by rw [hr]⟩

/-- Text is read token by token. -/
theorem text_induction {motive : Scanner → List Char → Prop}
    (nil : ∀ s cs, Lexeme.gap cs = cs → motive s cs)
    (cons : ∀ s gap c rest, Lexeme.gap (gap ++ c :: rest) = gap →
      motive (s.after (s.token gap c rest) c) (rest.drop ((s.lexeme c rest).size - 1)) →
      motive s (gap ++ c :: rest)) (s : Scanner) (cs : List Char) : motive s cs := by
  induction hn : cs.length using Nat.strongRecOn generalizing s cs with
  | ind n ih =>
    rcases text_cases cs with h | ⟨gap, c, rest, rfl, h⟩
    · exact nil s cs h
    · refine cons s gap c rest h (ih _ ?_ _ _ rfl)
      rw [← hn, List.length_append, List.length_cons, List.length_drop]
      omega

theorem start_lt_stop (s : Scanner) (gap : List Char) (c : Char) (rest : List Char) :
    s.offset ≤ (s.token gap c rest).span.start
      ∧ (s.token gap c rest).span.start < (s.token gap c rest).span.stop := by
  have := c.utf8Size_pos
  simp only [token, byteSize_cons]
  omega

theorem tokens_ordered (s : Scanner) (cs : List Char) :
    (s.tokens cs).Pairwise (fun t u => t.span.start < u.span.start)
      ∧ ∀ t ∈ s.tokens cs, s.offset ≤ t.span.start := by
  induction s, cs using text_induction with
  | nil s cs h => simp [tokens_nil h]
  | cons s gap c rest h ih =>
    obtain ⟨ho, hl⟩ := start_lt_stop s gap c rest
    rw [tokens_cons h]
    refine ⟨List.pairwise_cons.mpr ⟨fun u hu => ?_, ih.1⟩, fun t ht => ?_⟩
    · exact Nat.lt_of_lt_of_le hl (ih.2 u hu)
    · rcases List.mem_cons.mp ht with rfl | ht
      · exact ho
      · exact Nat.le_trans (Nat.le_trans ho (Nat.le_of_lt hl)) (ih.2 t ht)

theorem nodup_spans (s : Scanner) (cs : List Char) : ((s.tokens cs).map Token.span).Nodup := by
  refine List.pairwise_map.mpr ((tokens_ordered s cs).1.imp fun h he => ?_)
  rw [he] at h
  exact Nat.lt_irrefl _ h

theorem getLast?_tokens (s : Scanner) (cs : List Char) :
    ((s.tokens cs).getLast?.map Token.kind) = some .eof := by
  induction s, cs using text_induction with
  | nil s cs h => rw [tokens_nil h]; rfl
  | cons s gap c rest h ih =>
    rw [tokens_cons h, List.getLast?_cons, Option.map_some]
    cases hl : (Scanner.tokens _ (rest.drop _)).getLast? with
    | none => rw [hl] at ih; cases ih
    | some t => rw [hl] at ih; exact ih

end Scanner
end ModuleBundler
