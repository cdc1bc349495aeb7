import ModuleBundler.Proofs.Token.Extent

/-! Blanks and comments between tokens do not depend on the tokens after them. -/
namespace ModuleBundler
open ModuleBundler.Text

namespace Lexeme

theorem prefix_blockComment? {cs text : List Char} (h : blockComment? cs = some text) :
    text <+: cs ∧ text ≠ [] := by
  fun_induction blockComment? cs generalizing text with
  | case1 cs =>
    obtain rfl := Option.some.inj h
    exact ⟨⟨cs, rfl⟩, by simp⟩
  | case2 c cs hc ih =>
    obtain ⟨u, hu, rfl⟩ := Option.map_eq_some_iff.mp h
    exact ⟨List.cons_prefix_cons.mpr ⟨rfl, (ih hu).1⟩, by simp⟩
  | case3 => cases h

theorem blockComment?_append {cs text : List Char} (h : blockComment? cs = some text)
    (x : List Char) : blockComment? (text ++ x) = some text := by
  fun_induction blockComment? cs generalizing text with
  | case1 cs =>
    obtain rfl := Option.some.inj h
    rfl
  | case2 c cs hc ih =>
    obtain ⟨u, hu, rfl⟩ := Option.map_eq_some_iff.mp h
    rw [List.cons_append, blockComment?, ih hu]
    · rfl
    · rintro v rfl hv
      obtain ⟨⟨w, rfl⟩, hn⟩ := prefix_blockComment? hu
      obtain ⟨d, u, rfl⟩ := List.exists_cons_of_ne_nil hn
      exact hc (u ++ w) rfl (by rw [List.cons_append, (List.cons.inj hv).1])
  | case3 => cases h

theorem gap_plain {c : Char} {cs : List Char}
    (h : ∀ d v, c = '/' → cs = d :: v → d ≠ '/' ∧ d ≠ '*') :
    gap (c :: cs) = if isBlank c then c :: gap cs else [] := by
  rw [gap]
  · exact fun v hc hv => absurd rfl (h _ v hc hv).1
  · exact fun v hc hv => absurd rfl (h _ v hc hv).2

theorem gap_cons_blank {c : Char} (hc : isBlank c = true) (cs : List Char) :
    gap (c :: cs) = c :: gap cs := by
  rw [gap_plain, if_pos hc]
  rintro _ _ rfl
  exact absurd hc (by decide)

theorem gap_cons_mark {c : Char} (hs : c ≠ '/') (hc : isBlank c = false) (cs : List Char) :
    gap (c :: cs) = [] := by
  rw [gap_plain fun _ _ h => absurd h hs, if_neg (by simp [hc])]

theorem gap_blanks {g cs : List Char} (hg : ∀ c ∈ g, isBlank c = true) (hcs : gap cs = []) :
    gap (g ++ cs) = g := by
  induction g with
  | nil => exact hcs
  | cons c g ih =>
    rw [List.forall_mem_cons] at hg
    rw [List.cons_append, gap_cons_blank hg.1, ih hg.2]

/-- A prefix and what is read of the rest form a prefix. -/
theorem prefix_append_gap {text cs : List Char} (ht : text <+: cs)
    (h : gap (cs.drop text.length) <+: cs.drop text.length) :
    text ++ gap (cs.drop text.length) <+: cs := by
  obtain ⟨v, rfl⟩ := ht
  rw [List.drop_left] at h ⊢
  exact (List.prefix_append_right_inj text).mpr h

theorem prefix_gap (cs : List Char) : gap cs <+: cs := by
  fun_induction gap cs with
  | case1 => exact List.prefix_rfl
  | case2 cs text ih =>
    have h := prefix_append_gap (List.takeWhile_prefix _) ih
    exact List.cons_prefix_cons.mpr ⟨rfl, List.cons_prefix_cons.mpr ⟨rfl, h⟩⟩
  | case3 cs text h ih =>
    have h := prefix_append_gap (prefix_blockComment? h).1 ih
    exact List.cons_prefix_cons.mpr ⟨rfl, List.cons_prefix_cons.mpr ⟨rfl, h⟩⟩
  | case4 cs h => exact List.nil_prefix
  | case5 c cs h₁ h₂ hc ih => exact List.cons_prefix_cons.mpr ⟨rfl, ih⟩
  | case6 c cs h₁ h₂ hc => exact List.nil_prefix

/-- No gap follows a gap. -/
theorem gap_drop (cs : List Char) : gap (cs.drop (gap cs).length) = [] := by
  fun_induction gap cs with
  | case1 => exact gap.eq_1
  | case2 cs text ih =>
    simpa [← List.drop_drop] using ih
  | case3 cs text h ih =>
    simpa [← List.drop_drop] using ih
  | case4 cs h => rw [List.length_nil, List.drop_zero, gap, h]
  | case5 c cs h₁ h₂ hc ih => exact ih
  | case6 c cs h₁ h₂ hc => rw [List.length_nil, List.drop_zero, gap, if_neg hc] <;> assumption

/-- A line comment before more text of a gap ends where it ended. -/
theorem lineComment_append {cs : List Char} (h : cs.drop (lineComment cs).length ≠ [])
    (x : List Char) :
    lineComment (lineComment cs ++ (gap (cs.drop (lineComment cs).length) ++ x))
      = lineComment cs := by
  obtain ⟨d, v, hd⟩ := List.exists_cons_of_ne_nil h
  have ht : isLineTerminator d = true := by
    have hw : (lineComment cs ++ cs.dropWhile fun c => !isLineTerminator c).drop
        (lineComment cs).length = cs.dropWhile fun c => !isLineTerminator c := List.drop_left
    rw [lineComment, List.takeWhile_append_dropWhile] at hw
    have hn := List.head?_dropWhile_not (fun c => !isLineTerminator c) cs
    rw [← hw, ← lineComment, hd] at hn
    simpa using hn
  have hg : gap (d :: v) = d :: gap v := gap_cons_blank (isBlank_of_isLineTerminator ht) v
  have ha : ∀ c ∈ lineComment cs, (!isLineTerminator c) = true :=
    List.all_eq_true.mp List.all_takeWhile
  rw [hd, hg, List.cons_append]
  have hr : lineComment (lineComment cs ++ d :: (gap v ++ x))
      = lineComment cs ++ lineComment (d :: (gap v ++ x)) := List.takeWhile_append_of_pos ha
  rw [hr, lineComment, lineComment, List.takeWhile_cons, if_neg (by simp [ht]), List.append_nil]

/-- A gap stays the same before other text that does not go on with it. -/
theorem gap_append {cs x : List Char} (hcs : gap cs ≠ cs) (hx : gap x = []) :
    gap (gap cs ++ x) = gap cs := by
  fun_induction gap cs with
  | case1 => exact absurd rfl hcs
  | case2 cs text ih =>
    have hg : gap (cs.drop text.length) ≠ cs.drop text.length := by
      intro h
      rw [h] at hcs
      refine hcs (congrArg (fun u => '/' :: '/' :: u) ?_)
      exact List.prefix_iff_eq_append.mp (List.takeWhile_prefix _)
    have hn : cs.drop (lineComment cs).length ≠ [] := fun h => hg (by rw [h, gap])
    have hl := lineComment_append hn x
    simp only [List.cons_append, List.append_assoc]
    rw [gap]
    simp only [hl, text, List.drop_left, ih hg]
  | case3 cs text h ih =>
    have hg : gap (cs.drop text.length) ≠ cs.drop text.length := by
      intro h'
      rw [h'] at hcs
      refine hcs (congrArg (fun u => '/' :: '*' :: u) ?_)
      exact List.prefix_iff_eq_append.mp (prefix_blockComment? h).1
    simp only [List.cons_append, List.append_assoc]
    rw [gap, blockComment?_append h]
    simp only [List.drop_left, ih hg]
  | case4 cs h => exact hx
  | case5 c cs h₁ h₂ hc ih =>
    rw [List.cons_append, gap_cons_blank hc, ih fun h => hcs (congrArg _ h)]
  | case6 c cs h₁ h₂ hc => exact hx

end Lexeme
end ModuleBundler
