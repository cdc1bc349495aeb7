import ModuleBundler.Edit
import ModuleBundler.Proofs.Token.Answered

/-! The edits that put answers in place of tokens. -/
namespace ModuleBundler
open ModuleBundler.Text

variable {a : Answers}

/-- An edit for each answered token. -/
def Answers.edits (a : Answers) (tokens : List Token) : List Edit :=
  tokens.filterMap fun t => (a t.span).map fun v => ⟨t.span, quote v⟩

theorem Answers.edits_cons (t : Token) (ts : List Token) :
    a.edits (t :: ts) = ((a t.span).map fun v => ⟨t.span, quote v⟩).toList ++ a.edits ts := by
  rw [edits, List.filterMap_cons]
  cases a t.span <;> rfl

theorem Answers.edits_ordered {tokens : List Token}
    (h : tokens.Pairwise fun t u => t.span.start < u.span.start) :
    (a.edits tokens).Pairwise fun e f => e.span.start < f.span.start := by
  refine List.Pairwise.filterMap _ ?_ h
  intro t u htu e he f hf
  obtain ⟨v, -, rfl⟩ := Option.map_eq_some_iff.mp he
  obtain ⟨w, -, rfl⟩ := Option.map_eq_some_iff.mp hf
  exact htu

namespace Edit

theorem le_trans (e f g : Edit) (h : le e f) (h' : le f g) : le e g := by
  simp only [le, Bool.or_eq_true, Bool.and_eq_true, decide_eq_true_eq, beq_iff_eq] at *
  omega

theorem le_total (e f : Edit) : le e f || le f e := by
  simp only [le, Bool.or_eq_true, Bool.and_eq_true, decide_eq_true_eq, beq_iff_eq]
  omega

/-- Edits that start at different places are in one order only. -/
theorem eq_of_start_eq {es : List Edit} (h : es.Pairwise fun e f => e.span.start < f.span.start)
    {e f : Edit} (he : e ∈ es) (hf : f ∈ es) (hs : e.span.start = f.span.start) : e = f := by
  induction es with
  | nil => cases he
  | cons g es ih =>
    obtain ⟨hg, hes⟩ := List.pairwise_cons.mp h
    rcases List.mem_cons.mp he with rfl | he' <;> rcases List.mem_cons.mp hf with rfl | hf'
    · rfl
    · have := hg f hf'
      omega
    · have := hg e he'
      omega
    · exact ih hes he' hf'

theorem mergeSort_eq {es es' : List Edit} (hp : es.Perm es')
    (hs : es'.Pairwise fun e f => e.span.start < f.span.start) : es.mergeSort le = es' := by
  have hm : (es.mergeSort le).Perm es' := (List.mergeSort_perm es le).trans hp
  have hl : (es.mergeSort le).Pairwise (le · ·) := List.pairwise_mergeSort le_trans le_total es
  have hl' : es'.Pairwise (le · ·) := hs.imp fun h => by simp [le, h]
  refine List.Perm.eq_of_pairwise (fun e f he hf hle hge => ?_) hl hl' hm
  refine eq_of_start_eq hs (hm.mem_iff.mp he) hf ?_
  simp only [le, Bool.or_eq_true, Bool.and_eq_true, decide_eq_true_eq, beq_iff_eq] at hle hge
  omega

theorem applyFrom_cons {cs : List Char} {n : Nat} {b : Option Edit} {e : Edit}
    {es : List Edit} {rest : List Char} (hs : n ≤ e.span.start)
    (ht : e.span.stop ≤ byteSize cs) (h : applyFrom cs e.span.stop (some e) es = .ok rest) :
    applyFrom cs n b (e :: es)
      = .ok (slice n e.span.start cs ++ (e.text.toList ++ rest)) := by
  rw [applyFrom, if_neg (by omega), h]
  rfl

/-- The edits of the answers put them in place of the tokens, from any place before these. -/
theorem applyFrom_answers {s : Scanner} {cs p q : List Char} {previous : Token} {b : Option Edit}
    (hs : s.offset = byteSize p + byteSize q) (h : ArgumentsOnly a previous (s.tokens cs)) :
    applyFrom (p ++ (q ++ cs)) (byteSize p) b (a.edits (s.tokens cs))
      = .ok (q ++ s.answered a cs) := by
  induction s, cs using Scanner.text_induction generalizing p q previous b with
  | nil s cs hg =>
    rw [Scanner.tokens_nil hg] at h ⊢
    have hn : a ⟨s.offset + byteSize cs, s.offset + byteSize cs⟩ = none := by
      rw [← Option.not_isSome_iff_eq_none]
      intro hs
      have hk := h.1 hs
      simp only [Token.isArgument, Bool.and_eq_true] at hk
      cases hk.2
    rw [Answers.edits_cons, hn, Scanner.answered_nil hg]
    exact congrArg Except.ok (dropBytes_append p (q ++ cs))
  | cons s gap c rest hg ih =>
    have hR := List.take_append_drop ((s.lexeme c rest).size - 1) rest
    have hstart : (s.token gap c rest).span.start = byteSize p + byteSize (q ++ gap) := by
      simp only [Scanner.token, byteSize_append, hs, Nat.add_assoc]
    have hstop : (s.token gap c rest).span.stop
        = (s.token gap c rest).span.start
          + byteSize (c :: rest.take ((s.lexeme c rest).size - 1)) := rfl
    rw [Scanner.tokens_cons hg] at h ⊢
    rw [Scanner.answered_cons hg, Answers.edits_cons]
    generalize s.token gap c rest = t at *
    generalize rest.drop ((s.lexeme c rest).size - 1) = R at *
    generalize rest.take ((s.lexeme c rest).size - 1) = u at *
    subst hR
    cases ha : a t.span with
    | none =>
      rw [Scanner.answer_none ha]
      have hr := ih (p := p) (q := q ++ (gap ++ c :: u)) (b := b) ?_ h.2
      · simpa [List.append_assoc] using hr
      · rw [Scanner.after, hstop, hstart]
        simp only [byteSize_append]
        omega
    | some v =>
      rw [Scanner.answer_some ha]
      have hr := ih (p := p ++ (q ++ (gap ++ c :: u))) (q := []) (b := some ⟨t.span, quote v⟩) ?_
        h.2
      · have hp : byteSize (p ++ (q ++ (gap ++ c :: u))) = t.span.stop := by
          rw [hstop, hstart]
          simp only [byteSize_append]
          omega
        rw [hp] at hr
        have hw : (p ++ (q ++ (gap ++ c :: u))) ++ ([] ++ R)
            = p ++ ((q ++ gap) ++ (c :: u ++ R)) := by
          simp [List.append_assoc]
        rw [hw] at hr
        have hsl : slice (byteSize p) t.span.start (p ++ ((q ++ gap) ++ (c :: u ++ R)))
            = q ++ gap := by
          rw [hstart]
          exact slice_append p (q ++ gap) _
        have hc := applyFrom_cons (b := b) (e := ⟨t.span, quote v⟩) (n := byteSize p)
          (by rw [hstart]; omega) ?_ hr
        · rw [hsl] at hc
          simpa [List.append_assoc, quote] using hc
        · rw [hstop, hstart]
          simp only [byteSize_append, byteSize_cons]
          omega
      · rw [Scanner.after, hstop, hstart]
        simp only [byteSize_append, byteSize_nil]
        omega

end Edit
end ModuleBundler
