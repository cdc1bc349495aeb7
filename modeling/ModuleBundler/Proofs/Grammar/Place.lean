import ModuleBundler.Proofs.Analysis.Apart
import ModuleBundler.Proofs.Grammar.Bracket
import ModuleBundler.Proofs.Token.Source

/-! Where the tokens of a source text stand. -/
namespace ModuleBundler
open ModuleBundler.Text

theorem Scanner.token_fits {s : Scanner} {p gap : List Char} {c : Char} {rest : List Char}
    (hs : s.offset = byteSize p) : (s.token gap c rest).span.Fits (p ++ (gap ++ c :: rest)) := by
  have hp : p ++ gap <+: p ++ (gap ++ c :: rest) := by
    rw [← List.append_assoc]
    exact List.prefix_append _ _
  have hq : p ++ (gap ++ c :: rest.take ((s.lexeme c rest).size - 1))
      <+: p ++ (gap ++ c :: rest) := by
    refine (List.prefix_append_right_inj _).mpr ((List.prefix_append_right_inj _).mpr ?_)
    exact List.cons_prefix_cons.mpr ⟨rfl, List.take_prefix _ _⟩
  constructor
  · exact Nat.le_of_lt (s.start_lt_stop gap c rest).2
  · exact ⟨_, hp, by simp [token, hs]⟩
  · exact ⟨_, hq, by simp [token, hs, Nat.add_assoc]⟩

/-- Tokens are stretches of the text, one after the other. -/
theorem Scanner.tokens_placed (s : Scanner) (cs : List Char) :
    ∀ p, s.offset = byteSize p →
      (∀ t ∈ s.tokens cs, t.span.Fits (p ++ cs) ∧ s.offset ≤ t.span.start)
        ∧ (s.tokens cs).Pairwise fun t u => t.span.stop ≤ u.span.start := by
  induction s, cs using text_induction with
  | nil s cs h =>
    intro p hs
    have hn : s.offset + byteSize cs = byteSize (p ++ cs) := by rw [byteSize_append, hs]
    rw [tokens_nil h]
    refine ⟨fun t ht => ?_, List.pairwise_singleton _ _⟩
    obtain rfl := List.mem_singleton.mp ht
    refine ⟨?_, Nat.le_add_right _ _⟩
    rw [hn]
    exact Span.fits_place (boundary_byteSize _)
  | cons s gap c rest h ih =>
    intro p hs
    have hr := List.take_append_drop ((s.lexeme c rest).size - 1) rest
    have hq : (s.after (s.token gap c rest) c).offset
        = byteSize (p ++ (gap ++ c :: rest.take ((s.lexeme c rest).size - 1))) := by
      simp [after, token, hs, Nat.add_assoc]
    have he : p ++ (gap ++ c :: rest.take ((s.lexeme c rest).size - 1))
        ++ rest.drop ((s.lexeme c rest).size - 1) = p ++ (gap ++ c :: rest) := by
      rw [List.append_assoc, List.append_assoc, List.cons_append, hr]
    obtain ⟨hf, hw⟩ := ih _ hq
    rw [he] at hf
    obtain ⟨hl, hl'⟩ := s.start_lt_stop gap c rest
    rw [tokens_cons h]
    refine ⟨fun t ht => ?_, List.pairwise_cons.mpr ⟨fun u hu => (hf u hu).2, hw⟩⟩
    rcases List.mem_cons.mp ht with rfl | ht
    · exact ⟨token_fits hs, hl⟩
    · exact ⟨(hf t ht).1, Nat.le_trans hl (Nat.le_trans (Nat.le_of_lt hl') (hf t ht).2)⟩

namespace Cursor

/-- The tokens that are left stand in a text one after the other, up to an end mark. -/
structure Placed (cs : List Char) (c : Cursor) : Prop where
  ended : c.Ended
  fits : ∀ t ∈ c.current :: c.ahead, t.span.Fits cs
  ordered : (c.current :: c.ahead).Pairwise fun t u => t.span.stop ≤ u.span.start

theorem placed_tokenize (source : String) :
    (ofTokens (tokenize source)).Placed source.toList
      ∧ byteSize (hashbang source.toList) ≤ (ofTokens (tokenize source)).current.span.start := by
  obtain ⟨t, ts, ht⟩ := tokenize_cons source
  have hw := List.prefix_iff_eq_append.mp (prefix_hashbang source.toList)
  obtain ⟨hf, ho⟩ := Scanner.tokens_placed (Scanner.start source.toList)
    (source.toList.drop (hashbang source.toList).length) (hashbang source.toList) rfl
  have hended := Cursor.Ended.ofTokens (tokenize source)
  rw [hw, ← tokenize_eq] at hf
  rw [← tokenize_eq] at ho
  rw [ofTokens_tokenize ht] at hended ⊢
  rw [ht] at hf ho
  exact ⟨⟨hended, fun u hu => (hf u hu).1, ho⟩, (hf t List.mem_cons_self).2⟩

/-- The span of what is read from one place to another. -/
def spanTo (c c' : Cursor) : Span := ⟨c.current.span.start, c'.previous.span.stop⟩

section Moves
variable {cs : List Char} {c c' : Cursor} {w : List Token}

theorem Placed.moves (hc : c.Placed cs) (h : c.Moves w c') : c'.Placed cs := by
  obtain ⟨he, hf, ho⟩ := hc
  rw [h.tokens] at hf ho
  exact ⟨h.ended he, fun t ht => hf t (List.mem_append_right w ht),
    (List.pairwise_append.mp ho).2.1⟩

/-- The tokens that are passed are apart from each other, and from those that are left. -/
theorem Placed.passed (hc : c.Placed cs) (h : c.Moves w c') :
    (∀ t ∈ w, t.span.Fits cs ∧ t.span.stop ≤ c'.current.span.start)
      ∧ w.Pairwise fun t u => t.span.stop ≤ u.span.start := by
  obtain ⟨-, hf, ho⟩ := hc
  rw [h.tokens] at hf ho
  obtain ⟨hw, -, hr⟩ := List.pairwise_append.mp ho
  exact ⟨fun t ht => ⟨hf t (List.mem_append_left _ ht), hr t ht _ List.mem_cons_self⟩, hw⟩

theorem Moves.head (h : c.Moves w c') (hw : 0 < w.length) : c.current ∈ w := by
  cases w with
  | nil => cases hw
  | cons t w =>
    obtain ⟨ht, -⟩ := List.cons.inj h.tokens
    rw [ht]
    exact List.mem_cons_self

theorem Moves.last (h : c.Moves w c') (hw : 0 < w.length) :
    ∃ u, w = u ++ [c'.previous] := by
  rcases List.eq_nil_or_concat w with rfl | ⟨u, t, rfl⟩
  · cases hw
  · have ht : c'.previous = t := by simpa using h.previous
    exact ⟨u, by rw [ht, List.concat_eq_append]⟩

/-- Each token that is passed stands in the span of them all. -/
theorem Placed.within (hc : c.Placed cs) (h : c.Moves w c') {t : Token} (ht : t ∈ w) :
    c.current.span.start ≤ t.span.start ∧ t.span.stop ≤ c'.previous.span.stop := by
  obtain ⟨hf, ho⟩ := hc.passed h
  have hw : 0 < w.length := List.length_pos_of_mem ht
  constructor
  · cases w with
    | nil => cases ht
    | cons u w =>
      obtain ⟨hu, -⟩ := List.cons.inj h.tokens
      rw [hu]
      rcases List.mem_cons.mp ht with rfl | ht
      · exact Nat.le_refl _
      · exact Nat.le_trans (hf u List.mem_cons_self).1.ordered ((List.pairwise_cons.mp ho).1 t ht)
  · obtain ⟨u, rfl⟩ := h.last hw
    rcases List.mem_append.mp ht with hu | hl
    · have hl : c'.previous ∈ u ++ [c'.previous] := by simp
      have hb := (List.pairwise_append.mp ho).2.2 t hu _ List.mem_cons_self
      exact Nat.le_trans hb (hf _ hl).1.ordered
    · obtain rfl := List.mem_singleton.mp hl
      exact Nat.le_refl _

/-- Some tokens that are passed are a stretch of the text, before the token that comes next. -/
theorem Placed.spanTo (hc : c.Placed cs) (h : c.Moves w c') (hw : 0 < w.length) :
    (c.spanTo c').Fits cs ∧ c'.previous.span.stop ≤ c'.current.span.start := by
  obtain ⟨u, hu⟩ := h.last hw
  have hl : c'.previous ∈ w := by simp [hu]
  obtain ⟨hf, -⟩ := hc.passed h
  obtain ⟨hs, -⟩ := hc.within h hl
  have hfirst := (hf _ (h.head hw)).1
  obtain ⟨hlast, hstop⟩ := hf _ hl
  exact ⟨⟨Nat.le_trans hs hlast.ordered, hfirst.start, hlast.stop⟩, hstop⟩

end Moves
end Cursor

end ModuleBundler
