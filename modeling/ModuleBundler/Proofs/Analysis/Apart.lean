import ModuleBundler.Analysis.Module
import ModuleBundler.Proofs.Token.Edits
import Mathlib.Data.List.Perm.Subperm

/-! Spans that stand apart in a text: edits for them can all be made. -/
namespace ModuleBundler
open ModuleBundler.Text

/-- The offset splits no character of the text. -/
def Text.Boundary (cs : List Char) (n : Nat) : Prop := ∃ u, u <+: cs ∧ byteSize u = n

theorem Text.Boundary.le {cs : List Char} {n : Nat} (h : Boundary cs n) : n ≤ byteSize cs := by
  obtain ⟨u, ⟨v, rfl⟩, rfl⟩ := h
  rw [byteSize_append]
  exact Nat.le_add_right _ _

theorem Text.boundary_zero (cs : List Char) : Boundary cs 0 := ⟨[], List.nil_prefix, rfl⟩

theorem Text.boundary_byteSize (cs : List Char) : Boundary cs (byteSize cs) :=
  ⟨cs, List.prefix_rfl, rfl⟩

namespace Span

/-- The span is a stretch of the text: it ends after it starts, and splits no character. -/
structure Fits (cs : List Char) (s : Span) : Prop where
  ordered : s.start ≤ s.stop
  start : Boundary cs s.start
  stop : Boundary cs s.stop

/-- One of the spans ends before the other one starts. -/
def Apart (a b : Span) : Prop := a.stop ≤ b.start ∨ b.stop ≤ a.start

theorem Apart.symm {a b : Span} (h : a.Apart b) : b.Apart a := Or.symm h

/-- A place of its own, between two characters. -/
theorem fits_place {cs : List Char} {n : Nat} (h : Boundary cs n) : Fits cs ⟨n, n⟩ :=
  ⟨Nat.le_refl n, h, h⟩

end Span

/-- Stretches of a text between two offsets, each apart from all the others. -/
structure Tidy (cs : List Char) (lo hi : Nat) (spans : List Span) : Prop where
  within : ∀ s ∈ spans, s.Fits cs ∧ lo ≤ s.start ∧ s.stop ≤ hi
  apart : spans.Pairwise Span.Apart

namespace Tidy
variable {cs : List Char} {lo mid hi : Nat} {spans others : List Span}

theorem nil : Tidy cs lo hi [] := ⟨by simp, List.Pairwise.nil⟩

theorem singleton {s : Span} (h : s.Fits cs) : Tidy cs s.start s.stop [s] := by
  constructor
  · intro t ht
    obtain rfl := List.mem_singleton.mp ht
    exact ⟨h, Nat.le_refl _, Nat.le_refl _⟩
  · exact List.pairwise_singleton _ _

theorem mono {lo' hi' : Nat} (h : Tidy cs lo hi spans) (hl : lo' ≤ lo) (hh : hi ≤ hi') :
    Tidy cs lo' hi' spans := by
  refine ⟨fun s hs => ?_, h.apart⟩
  obtain ⟨hf, h₁, h₂⟩ := h.within s hs
  exact ⟨hf, Nat.le_trans hl h₁, Nat.le_trans h₂ hh⟩

theorem append (h : Tidy cs lo mid spans) (h' : Tidy cs mid hi others) (hl : lo ≤ mid)
    (hh : mid ≤ hi) : Tidy cs lo hi (spans ++ others) := by
  constructor
  · intro s hs
    rcases List.mem_append.mp hs with hs | hs
    · exact (h.mono (Nat.le_refl _) hh).within s hs
    · exact (h'.mono hl (Nat.le_refl _)).within s hs
  · refine List.pairwise_append.mpr ⟨h.apart, h'.apart, fun s hs t ht => .inl ?_⟩
    exact Nat.le_trans (h.within s hs).2.2 (h'.within t ht).2.1

theorem perm (h : Tidy cs lo hi spans) (hp : others.Perm spans) : Tidy cs lo hi others :=
  ⟨fun s hs => h.within s (hp.mem_iff.mp hs), h.apart.perm hp.symm Span.Apart.symm⟩

theorem sublist (h : Tidy cs lo hi spans) (hs : others.Sublist spans) : Tidy cs lo hi others :=
  ⟨fun s h' => h.within s (hs.subset h'), h.apart.sublist hs⟩

theorem subperm (h : Tidy cs lo hi spans) (hs : others.Subperm spans) : Tidy cs lo hi others := by
  obtain ⟨l, hp, hl⟩ := hs
  exact (h.sublist hl).perm hp.symm

end Tidy

namespace Edit

/-- Of two edits that stand apart, the one that is made first ends before the other one starts. -/
theorem stop_le_start {e f : Edit} (hf : f.span.start ≤ f.span.stop) (ha : e.span.Apart f.span)
    (h : le e f = true) : e.span.stop ≤ f.span.start := by
  simp only [le, Bool.or_eq_true, Bool.and_eq_true, decide_eq_true_eq, beq_iff_eq] at h
  rcases ha with ha | ha
  · exact ha
  · omega

theorem applyFrom_of_ordered {cs : List Char} {place : Nat} {es : List Edit}
    (ho : es.Pairwise fun e f => e.span.stop ≤ f.span.start)
    (hp : ∀ e ∈ es, place ≤ e.span.start) (hs : ∀ e ∈ es, e.span.stop ≤ byteSize cs)
    (before : Option Edit) : ∃ text, applyFrom cs place before es = .ok text := by
  induction es generalizing place before with
  | nil => exact ⟨_, rfl⟩
  | cons e es ih =>
    obtain ⟨he, hes⟩ := List.pairwise_cons.mp ho
    obtain ⟨rest, hr⟩ := ih hes he (fun f hf => hs f (List.mem_cons_of_mem e hf)) (some e)
    exact ⟨_, applyFrom_cons (hp e List.mem_cons_self) (hs e List.mem_cons_self) hr⟩

/-- Edits that stand apart can all be made. -/
theorem apply_of_tidy {source : String} {lo hi : Nat} {es : List Edit}
    (h : Tidy source.toList lo hi (es.map Edit.span)) : ∃ text, apply es source = .ok text := by
  have hf : ∀ e ∈ es, e.span.Fits source.toList := fun e he =>
    (h.within e.span (List.mem_map_of_mem he)).1
  have hm : ∀ e ∈ es.mergeSort le, e ∈ es := fun e he => (List.mergeSort_perm es le).mem_iff.mp he
  have ha : (es.mergeSort le).Pairwise fun e f => e.span.Apart f.span :=
    (List.pairwise_map.mp h.apart).perm (List.mergeSort_perm es le).symm Span.Apart.symm
  have hl : (es.mergeSort le).Pairwise (le · ·) := List.pairwise_mergeSort le_trans le_total es
  have ho : (es.mergeSort le).Pairwise fun e f => e.span.stop ≤ f.span.start := by
    refine List.Pairwise.imp_of_mem ?_ (ha.and hl)
    rintro e f _ he' ⟨haf, hle⟩
    exact stop_le_start (hf f (hm f he')).ordered haf hle
  have hs : ∀ e ∈ es.mergeSort le, e.span.stop ≤ byteSize source.toList :=
    fun e he => (hf e (hm e he)).stop.le
  have hp : ∀ e ∈ es.mergeSort le, 0 ≤ e.span.start := fun _ _ => Nat.zero_le _
  obtain ⟨text, ht⟩ := applyFrom_of_ordered ho hp hs none
  rw [apply, ht]
  exact ⟨_, rfl⟩

end Edit
end ModuleBundler
