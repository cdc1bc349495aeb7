import Mathlib
import ModuleBundler.Proofs.Analysis.Apart

/-! Edits are made all at once: their stable order by spans decides whether they can be made, and
the text is the one that splicing them in from the last to the first gives. Among the results:
insertions at one place stay in a row, and only the order of edits with one span matters. -/
namespace ModuleBundler
open ModuleBundler.Text

section Cut
variable {cs : List Char} {m n : Nat}

/-- The bytes before a place and those after it are the text. -/
theorem Text.takeBytes_append_dropBytes (h : Boundary cs n) :
    takeBytes n cs ++ dropBytes n cs = cs := by
  obtain ⟨u, ⟨v, rfl⟩, rfl⟩ := h
  rw [takeBytes_append, dropBytes_append]

/-- What follows a place can be anything if the bytes before it stay. -/
theorem Text.dropBytes_takeBytes_append (h : Boundary cs n) (rest : List Char) :
    dropBytes n (takeBytes n cs ++ rest) = rest := by
  obtain ⟨u, ⟨v, rfl⟩, rfl⟩ := h
  rw [takeBytes_append, dropBytes_append]

/-- Of two beginnings of a text the shorter one is a beginning of the other one. -/
theorem Text.prefix_of_byteSize_le {u x : List Char} (hu : u <+: cs) (hx : x <+: cs)
    (h : byteSize u ≤ byteSize x) : u <+: x := by
  rcases List.prefix_or_prefix_of_prefix hu hx with hp | ⟨v, rfl⟩
  · exact hp
  · cases v with
    | nil => simp
    | cons c v =>
      have := byteSize_pos (List.cons_ne_nil c v)
      rw [byteSize_append] at h
      omega

/-- The bytes between two places come after those before the first one. -/
theorem Text.takeBytes_append_slice (hm : Boundary cs m) (hn : Boundary cs n) (h : m ≤ n) :
    takeBytes m cs ++ slice m n cs = takeBytes n cs := by
  obtain ⟨u, hu, rfl⟩ := hm
  obtain ⟨x, hx, rfl⟩ := hn
  obtain ⟨v, rfl⟩ := prefix_of_byteSize_le hu hx h
  obtain ⟨w, rfl⟩ := hx
  rw [byteSize_append, List.append_assoc, slice_append, takeBytes_append, ← List.append_assoc,
    ← byteSize_append, takeBytes_append]

/-- The bytes before a place stay if those before a later one do. -/
theorem Text.takeBytes_takeBytes_append (hm : Boundary cs m) (hn : Boundary cs n) (h : m ≤ n)
    (rest : List Char) : takeBytes m (takeBytes n cs ++ rest) = takeBytes m cs := by
  rw [← takeBytes_append_slice hm hn h]
  obtain ⟨u, ⟨v, rfl⟩, rfl⟩ := hm
  rw [List.append_assoc, takeBytes_append, takeBytes_append]

end Cut

namespace Edit
variable {cs : List Char} {place : Nat} {es fs edits ordered : List Edit} {e f : Edit}

/-- The span of the edit is in order, and those of its ends that lie in the text split no
character. -/
structure Given (cs : List Char) (e : Edit) : Prop where
  ordered : e.span.start ≤ e.span.stop
  start : e.span.start ≤ byteSize cs → Boundary cs e.span.start
  stop : e.span.stop ≤ byteSize cs → Boundary cs e.span.stop

/-- The text after a single edit. -/
def splice (e : Edit) (cs : List Char) : List Char :=
  takeBytes e.span.start cs ++ (e.text.toList ++ dropBytes e.span.stop cs)

/-- The span of the first edit starts before that of the second one, or at the same place and ends
no later. -/
def Precedes (e f : Edit) : Prop :=
  e.span.start < f.span.start ∨ e.span.start = f.span.start ∧ e.span.stop ≤ f.span.stop

/-- The edits in the order of their spans, those with one span in the order in which they are
given. -/
structure InOrder (edits ordered : List Edit) : Prop where
  perm : ordered.Perm edits
  sorted : ordered.Pairwise Precedes
  stable : ∀ s, ordered.filter (·.span = s) = edits.filter (·.span = s)

theorem le_iff : le e f = true ↔ e.Precedes f := by
  simp [le, Precedes]

theorem Precedes.antisymm (h : e.Precedes f) (h' : f.Precedes e) : e.span = f.span := by
  obtain ⟨⟨_, _⟩, _⟩ := e
  obtain ⟨⟨_, _⟩, _⟩ := f
  simp only [Precedes, Span.mk.injEq] at *
  omega

/-- Sorting keeps edits with one span in their order. -/
theorem filter_mergeSort (es : List Edit) (s : Span) :
    (es.mergeSort le).filter (·.span = s) = es.filter (·.span = s) := by
  have hl : (es.filter (·.span = s)).Pairwise (le · ·) := by
    refine List.pairwise_of_forall_mem_list fun e he f hf => ?_
    have hs : e.span = s := by simpa using (List.mem_filter.mp he).2
    have hs' : f.span = s := by simpa using (List.mem_filter.mp hf).2
    rw [le_iff]
    exact .inr (by rw [hs, hs']; exact ⟨rfl, Nat.le_refl _⟩)
  have hsub := (List.sublist_mergeSort le_trans le_total hl List.filter_sublist).filter
    (·.span = s)
  simp only [List.filter_filter, Bool.and_self] at hsub
  exact (hsub.eq_of_length ((List.mergeSort_perm es le).filter _).length_eq.symm).symm

theorem inOrder_mergeSort (es : List Edit) : InOrder es (es.mergeSort le) where
  perm := List.mergeSort_perm es le
  sorted := (List.pairwise_mergeSort le_trans le_total es).imp le_iff.mp
  stable := filter_mergeSort es

/-- Two lists in the order of spans with the same edits for each span are the same. -/
theorem eq_of_sorted (hs : es.Pairwise Precedes) (hs' : fs.Pairwise Precedes)
    (h : ∀ s, es.filter (·.span = s) = fs.filter (·.span = s)) : es = fs := by
  induction es generalizing fs with
  | nil =>
    cases fs with
    | nil => rfl
    | cons f fs =>
      have hf := h f.span
      simp at hf
  | cons e es ih =>
    cases fs with
    | nil =>
      have he := h e.span
      simp at he
    | cons f fs =>
      have hef : e.span = f.span := by
        have hf : f ∈ (e :: es).filter (·.span = f.span) := by rw [h]; simp
        have he : e ∈ (f :: fs).filter (·.span = e.span) := by rw [← h]; simp
        rcases List.mem_cons.mp (List.mem_filter.mp hf).1 with rfl | hf
        · rfl
        rcases List.mem_cons.mp (List.mem_filter.mp he).1 with rfl | he
        · rfl
        exact ((List.pairwise_cons.mp hs).1 f hf).antisymm ((List.pairwise_cons.mp hs').1 e he)
      have hhead := h e.span
      rw [List.filter_cons_of_pos (by simp), List.filter_cons_of_pos (by simp [hef])] at hhead
      obtain ⟨rfl, -⟩ := List.cons.inj hhead
      rw [ih hs.of_cons hs'.of_cons fun s => ?_]
      have htail := h s
      by_cases he : e.span = s
      · rw [List.filter_cons_of_pos (by simpa using he),
          List.filter_cons_of_pos (by simpa using he)] at htail
        exact (List.cons.inj htail).2
      · rwa [List.filter_cons_of_neg (by simpa using he),
          List.filter_cons_of_neg (by simpa using he)] at htail

/-- There is one order only. -/
theorem InOrder.eq_mergeSort (h : InOrder edits ordered) : ordered = edits.mergeSort le :=
  eq_of_sorted h.sorted (inOrder_mergeSort edits).sorted fun s => by
    rw [h.stable, filter_mergeSort]

/-- Only the order of edits with one span matters. -/
theorem mergeSort_congr (h : ∀ s, es.filter (·.span = s) = fs.filter (·.span = s)) :
    es.mergeSort le = fs.mergeSort le :=
  eq_of_sorted (inOrder_mergeSort es).sorted (inOrder_mergeSort fs).sorted fun s => by
    rw [filter_mergeSort, filter_mergeSort, h]

theorem applyFrom_ok_iff {before : Option Edit} :
    (∃ text, applyFrom cs place before es = .ok text) ↔
      (∀ e ∈ es, e.span.stop ≤ byteSize cs) ∧ (∀ e ∈ es.head?, place ≤ e.span.start) ∧
        es.IsChain fun e f => e.span.stop ≤ f.span.start := by
  induction es generalizing place before with
  | nil => simp [applyFrom]
  | cons e es ih =>
    constructor
    · rintro ⟨text, h⟩
      rw [applyFrom] at h
      split at h
      · cases h
      · next hn =>
        obtain ⟨rest, hr, -⟩ := Except.bind_eq_ok.mp h
        obtain ⟨hs, hh, hc⟩ := ih.mp ⟨rest, hr⟩
        refine ⟨List.forall_mem_cons.mpr ⟨by omega, hs⟩, fun f hf => ?_, ?_⟩
        · obtain rfl : e = f := by simpa using hf
          omega
        · exact List.isChain_cons.mpr ⟨hh, hc⟩
    · rintro ⟨hs, hh, hc⟩
      obtain ⟨he, hs⟩ := List.forall_mem_cons.mp hs
      obtain ⟨hn, hc⟩ := List.isChain_cons.mp hc
      obtain ⟨rest, hr⟩ : ∃ rest, applyFrom cs e.span.stop (some e) es = .ok rest :=
        ih.mpr ⟨hs, hn, hc⟩
      exact ⟨_, applyFrom_cons (hh e rfl) he hr⟩

/-- Edits that come one after the other change the text as if they were spliced in from the last
to the first: what stands before a place is as in the text before. -/
theorem splice_of_applyFrom {before : Option Edit} {text : List Char} (hp : Boundary cs place)
    (hg : ∀ e ∈ es, e.Given cs) (h : applyFrom cs place before es = .ok text) :
    takeBytes place cs ++ text = es.foldr splice cs := by
  induction es generalizing place before text with
  | nil =>
    cases h
    exact takeBytes_append_dropBytes hp
  | cons e es ih =>
    obtain ⟨he, hg⟩ := List.forall_mem_cons.mp hg
    rw [applyFrom] at h
    split at h
    · cases h
    next hn =>
    obtain ⟨rest, hr, h⟩ := Except.bind_eq_ok.mp h
    cases h
    have ho := he.ordered
    have hs : Boundary cs e.span.stop := he.stop (by omega)
    have hb : Boundary cs e.span.start := he.start (by omega)
    rw [List.foldr_cons, ← ih hs hg hr, splice, takeBytes_takeBytes_append hb hs ho,
      dropBytes_takeBytes_append hs, ← List.append_assoc,
      takeBytes_append_slice hp hb (by omega)]

/-- If edits in order cannot be made, two that follow each other overlap, or one of them ends after
the text. -/
theorem conflict_of_applyFrom {c : EditConflict}
    (h : applyFrom cs e.span.stop (some e) es = .error c) :
    ∃ f g, [f, g] <:+: e :: es ∧ c = ⟨f.span, g.span⟩ ∧
      (g.span.start < f.span.stop ∨ byteSize cs < g.span.stop) := by
  induction es generalizing e with
  | nil => cases h
  | cons f es ih =>
    rw [applyFrom] at h
    split at h
    · next hn =>
      cases h
      exact ⟨e, f, ⟨[], es, rfl⟩, rfl, hn⟩
    · cases hr : applyFrom cs f.span.stop (some f) es with
      | ok rest => simp [hr, bind, Except.bind, pure, Except.pure] at h
      | error d =>
        obtain rfl : d = c := by simpa [hr, bind, Except.bind] using h
        obtain ⟨g, g', hi, hc, hs⟩ := ih hr
        exact ⟨g, g', hi.trans (List.suffix_cons e _).isInfix, hc, hs⟩

/-- In the order of spans the insertions at one place come in a row: after the edits that start
before the place, and before those that replace what follows it. -/
theorem exists_insertions (hs : es.Pairwise Precedes) (ho : ∀ e ∈ es, e.span.start ≤ e.span.stop)
    (place : Nat) : ∃ before after,
      es = before ++ (es.filter (·.span = ⟨place, place⟩) ++ after) ∧
        (∀ e ∈ before, e.span.start < place) ∧
        ∀ e ∈ after, place ≤ e.span.start ∧ place < e.span.stop := by
  induction es with
  | nil => exact ⟨[], [], rfl, by simp, by simp⟩
  | cons e es ih =>
    obtain ⟨he, hs⟩ := List.pairwise_cons.mp hs
    obtain ⟨heo, ho⟩ := List.forall_mem_cons.mp ho
    obtain ⟨before, after, heq, hb, ha⟩ := ih hs ho
    by_cases hlt : e.span.start < place
    · refine ⟨e :: before, after, ?_, List.forall_mem_cons.mpr ⟨hlt, hb⟩, ha⟩
      have hne : ¬e.span = ⟨place, place⟩ := fun h => by simp [h] at hlt
      rw [List.filter_cons_of_neg (by simpa using hne), List.cons_append, ← heq]
    · -- All edits from here on start at the place or after it.
      have hge : ∀ f ∈ es, place ≤ f.span.start := fun f hf => by
        have := he f hf
        simp only [Precedes] at this
        omega
      by_cases hin : e.span = ⟨place, place⟩
      · cases before with
        | nil =>
          refine ⟨[], after, ?_, by simp, ha⟩
          rw [List.filter_cons_of_pos (by simpa using hin), List.nil_append, List.cons_append,
            ← List.nil_append (_ ++ after), ← heq]
        | cons f before =>
          have hlt := hb f List.mem_cons_self
          have hle := hge f (by rw [heq]; exact List.mem_cons_self)
          omega
      · have hpast : place ≤ e.span.start ∧ place < e.span.stop := by
          obtain ⟨⟨start, stop⟩, text⟩ := e
          simp only [Span.mk.injEq] at *
          omega
        have hlater : ∀ f ∈ es, place ≤ f.span.start ∧ place < f.span.stop := fun f hf => by
          have hef := he f hf
          have hf := ho f hf
          simp only [Precedes] at hef
          omega
        have hall : ∀ f ∈ e :: es, place ≤ f.span.start ∧ place < f.span.stop :=
          List.forall_mem_cons.mpr ⟨hpast, hlater⟩
        have hnone : (e :: es).filter (·.span = ⟨place, place⟩) = [] := by
          refine List.filter_eq_nil_iff.mpr fun f hf h => ?_
          have := hall f hf
          simp only [decide_eq_true_eq] at h
          simp [h] at this
        exact ⟨[], e :: es, by rw [hnone]; rfl, by simp, hall⟩

theorem apply_eq_ok {source text : String} :
    apply edits source = .ok text ↔
      applyFrom source.toList 0 none (edits.mergeSort le) = .ok text.toList := by
  rw [apply]
  cases applyFrom source.toList 0 none (edits.mergeSort le) with
  | error c => simp [Functor.map, Except.map]
  | ok cs =>
    simp only [Functor.map, Except.map, Except.ok.injEq]
    constructor
    · rintro rfl
      exact String.toList_ofList.symm
    · rintro rfl
      exact String.ofList_toList

theorem apply_eq_error {source : String} {c : EditConflict} :
    apply edits source = .error c ↔
      applyFrom source.toList 0 none (edits.mergeSort le) = .error c := by
  rw [apply]
  cases applyFrom source.toList 0 none (edits.mergeSort le) <;> simp [Functor.map, Except.map]

/-- Of two edits in order, the second one starts before the first one ends only if they overlap. -/
theorem Precedes.overlaps (h : e.Precedes f) (hf : f.span.start ≤ f.span.stop)
    (hs : f.span.start < e.span.stop) : ¬e.span.Apart f.span := by
  simp only [Precedes, Span.Apart] at *
  omega

/-- What becomes of a text by edits, which are made in a certain order of them. -/
structure Simultaneous (source : String) (edits ordered : List Edit) : Prop where
  /-- The edits can be made if each of them ends within the text and starts no earlier than the one
  before it ends, and only then. -/
  possible : (∃ text, apply edits source = .ok text) ↔
    (∀ e ∈ edits, e.span.stop ≤ byteSize source.toList) ∧
      ordered.IsChain fun e f => e.span.stop ≤ f.span.start
  /-- They are spliced in one at a time, from the last to the first. -/
  text : ∀ text, apply edits source = .ok text →
    text.toList = ordered.foldr splice source.toList
  /-- Insertions at one place keep their order and come before what replaces the text there. -/
  insertions : ∀ place, ∃ before after,
    ordered = before ++ (edits.filter (·.span = ⟨place, place⟩) ++ after) ∧
      (∀ e ∈ before, e.span.start < place) ∧
      ∀ e ∈ after, place ≤ e.span.start ∧ place < e.span.stop
  /-- A conflict names two of the edits that overlap, or one that ends after the text. -/
  conflict : ∀ c, apply edits source = .error c → ∃ e ∈ edits, ∃ f ∈ edits, c = ⟨e.span, f.span⟩ ∧
    ([e, f].Subperm edits ∧ ¬e.span.Apart f.span ∨ byteSize source.toList < f.span.stop)
  /-- The order in which the edits are given matters only among those with one span. -/
  order : ∀ others, others.Perm edits →
    (∀ s, others.filter (·.span = s) = edits.filter (·.span = s)) →
      apply others source = apply edits source

/-- Edits are made simultaneously. They have one stable order by their spans; it decides whether
they can be made, and the text is what splicing them in from the last to the first gives. -/
theorem apply_simultaneous (source : String) (edits : List Edit)
    (h : ∀ e ∈ edits, e.Given source.toList) :
    ∃ ordered, (∀ es, InOrder edits es ↔ es = ordered) ∧ Simultaneous source edits ordered := by
  have hi := inOrder_mergeSort edits
  have hm : ∀ e, e ∈ edits.mergeSort le ↔ e ∈ edits := fun e => hi.perm.mem_iff
  have hg : ∀ e ∈ edits.mergeSort le, e.Given source.toList := fun e he => h e ((hm e).mp he)
  refine ⟨edits.mergeSort le, fun es => ⟨InOrder.eq_mergeSort, fun he => he ▸ hi⟩, ?_⟩
  constructor
  case possible =>
    have hp : (∃ cs, applyFrom source.toList 0 none (edits.mergeSort le) = .ok cs) ↔ _ :=
      applyFrom_ok_iff
    simp only [Nat.zero_le, implies_true, true_and, hm] at hp
    rw [← hp]
    constructor
    · rintro ⟨text, ht⟩
      exact ⟨text.toList, apply_eq_ok.mp ht⟩
    · rintro ⟨cs, ht⟩
      exact ⟨String.ofList cs, apply_eq_ok.mpr (by rw [String.toList_ofList, ht])⟩
  case text =>
    intro text ht
    simpa using splice_of_applyFrom (boundary_zero _) hg (apply_eq_ok.mp ht)
  case insertions =>
    intro place
    have hx := exists_insertions hi.sorted (fun e he => (hg e he).ordered) place
    simpa only [hi.stable] using hx
  case conflict =>
    intro c hc
    rw [apply_eq_error] at hc
    cases hs : edits.mergeSort le with
    | nil => simp [hs] at hc
    | cons e es =>
      have he : e ∈ edits := (hm e).mp (by rw [hs]; exact List.mem_cons_self)
      rw [hs, applyFrom] at hc
      split at hc
      · next hn =>
        cases hc
        exact ⟨e, he, e, he, rfl, .inr (by omega)⟩
      cases hr : applyFrom source.toList e.span.stop (some e) es with
      | ok rest => simp [hr, bind, Except.bind, pure, Except.pure] at hc
      | error d =>
        obtain rfl : d = c := by simpa [hr, bind, Except.bind] using hc
        obtain ⟨f, g, hfg, rfl, hn⟩ := conflict_of_applyFrom hr
        rw [← hs] at hfg
        have hsub := hfg.sublist.subperm.trans hi.perm.subperm
        have hf : f ∈ edits := hsub.subset (by simp)
        have hgm : g ∈ edits := hsub.subset (by simp)
        refine ⟨f, hf, g, hgm, rfl, hn.imp_left fun hn => ⟨hsub, ?_⟩⟩
        have hfg : f.Precedes g := by simpa using hi.sorted.sublist hfg.sublist
        exact hfg.overlaps (h g hgm).ordered hn
  case order =>
    intro others _ ho
    rw [apply, apply, mergeSort_congr ho]

/-- Insertions at both ends of a text, two at one place in it, in front of a character of two bytes
that is replaced, and a part that is removed. -/
def touchingEdits : List Edit :=
  [⟨⟨5, 5⟩, "!"⟩, ⟨⟨1, 3⟩, "e"⟩, ⟨⟨1, 1⟩, "x"⟩, ⟨⟨0, 0⟩, "("⟩, ⟨⟨1, 1⟩, "y"⟩, ⟨⟨3, 5⟩, ""⟩]

theorem apply_simultaneous_touching :
    (∀ e ∈ touchingEdits, e.Given "céll".toList) ∧
      (∃ ordered, (∀ es, InOrder touchingEdits es ↔ es = ordered) ∧
        Simultaneous "céll" touchingEdits ordered) ∧
      apply touchingEdits "céll" = .ok "(cxye!" := by
  have hb : ∀ u, u <+: "céll".toList → Boundary "céll".toList (byteSize u) :=
    fun u hu => ⟨u, hu, rfl⟩
  have h₀ := hb [] (by decide)
  have h₁ := hb ['c'] (by decide)
  have h₃ := hb ['c', 'é'] (by decide)
  have h₅ := hb ['c', 'é', 'l', 'l'] (by decide)
  have hg : ∀ e ∈ touchingEdits, e.Given "céll".toList := by
    simp only [touchingEdits, List.forall_mem_cons]
    exact ⟨⟨by decide, fun _ => h₅, fun _ => h₅⟩, ⟨by decide, fun _ => h₁, fun _ => h₃⟩,
      ⟨by decide, fun _ => h₁, fun _ => h₁⟩, ⟨by decide, fun _ => h₀, fun _ => h₀⟩,
      ⟨by decide, fun _ => h₁, fun _ => h₁⟩, ⟨by decide, fun _ => h₃, fun _ => h₅⟩, by simp⟩
  exact ⟨hg, apply_simultaneous _ _ hg, by cbv⟩

end Edit
end ModuleBundler
