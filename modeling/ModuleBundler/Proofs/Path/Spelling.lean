import Mathlib.Data.List.Induction
import ModuleBundler.Path.Logical

/-! Components and how they are spelled. However a path is spelled, from its plainest spelling the
same components are read again. -/
namespace ModuleBundler

/-- A component that one stretch between slashes stands for. -/
def Component.Plain (c : Component) : Prop :=
  '/' ∉ c.text.toList ∧ Path.component? c.text.toList = some c

theorem Component.Plain.ne_nil {c : Component} (h : c.Plain) : c.text.toList ≠ [] := by
  intro hn
  have hc := h.2
  rw [hn] at hc
  cases hc

theorem Component.Plain.ne_root {c : Component} (h : c.Plain) : c ≠ .root := by
  rintro rfl
  exact h.1 (by decide)

namespace Path

theorem splitSlash_eq_splitOn (cs : List Char) : splitSlash cs = cs.splitOn '/' := by
  induction cs with
  | nil => rfl
  | cons c cs ih =>
    rw [splitSlash, ih, List.splitOn_cons_eq_if_modifyHead]
    have hn := List.splitOn_ne_nil '/' cs
    cases hs : cs.splitOn '/' with
    | nil => contradiction
    | cons piece pieces => by_cases hc : c = '/' <;> simp [hc]

theorem splitSlash_slash (cs : List Char) : splitSlash ('/' :: cs) = [] :: splitSlash cs := by
  rw [splitSlash_eq_splitOn, splitSlash_eq_splitOn, List.splitOn_cons_eq_if_modifyHead]
  rfl

theorem not_mem_of_mem_splitSlash {cs piece : List Char} (h : piece ∈ splitSlash cs) :
    '/' ∉ piece := by
  induction cs generalizing piece with
  | nil => simp_all [splitSlash]
  | cons c cs ih =>
    unfold splitSlash at h
    split at h
    · next hs => exact absurd hs (by rw [splitSlash_eq_splitOn]; exact List.splitOn_ne_nil _ _)
    · next first pieces hs =>
      rw [hs] at ih
      split at h
      · rcases List.mem_cons.mp h with rfl | h
        · exact List.not_mem_nil
        · exact ih h
      · next hc =>
        rcases List.mem_cons.mp h with rfl | h
        · have hf := ih List.mem_cons_self
          simpa [hf] using Ne.symm hc
        · exact ih (List.mem_cons_of_mem _ h)

theorem component?_text {piece : List Char} {c : Component} (h : component? piece = some c) :
    c.text.toList = piece := by
  unfold component? at h
  split at h
  · cases h
  · split at h
    · next hp =>
      cases h
      rw [hp]
      rfl
    · cases h
      exact String.toList_ofList

theorem plain_of_mem_filterMap {cs : List Char} {c : Component}
    (h : c ∈ (splitSlash cs).filterMap component?) : c.Plain := by
  obtain ⟨piece, hp, hc⟩ := List.mem_filterMap.mp h
  rw [← component?_text hc] at hp hc
  exact ⟨not_mem_of_mem_splitSlash hp, hc⟩

/-- The spelling of components with single slashes between them. -/
def spelled (cs : List Component) : String := String.intercalate "/" (cs.map Component.text)

theorem spelled_concat {cs : List Component} (hn : cs ≠ []) (c : Component) :
    spelled (cs ++ [c]) = spelled cs ++ "/" ++ c.text := by
  simp [spelled, String.intercalate_append_of_ne_nil, hn]

theorem splitSlash_spelled {cs : List Component} (hn : cs ≠ []) (h : ∀ c ∈ cs, c.Plain) :
    splitSlash (spelled cs).toList = cs.map (·.text.toList) := by
  have hl : (spelled cs).toList = ['/'].intercalate (cs.map (·.text.toList)) := by
    simp [spelled, String.toList_intercalate, Function.comp_def]
  rw [splitSlash_eq_splitOn, hl, List.splitOn_intercalate]
  · intro piece hp
    obtain ⟨c, hc, rfl⟩ := List.mem_map.mp hp
    exact (h c hc).1
  · simpa using hn

theorem filterMap_text {cs : List Component} (h : ∀ c ∈ cs, c.Plain) :
    (cs.map (·.text.toList)).filterMap component? = cs := by
  induction cs with
  | nil => rfl
  | cons c cs ih =>
    obtain ⟨hc, hcs⟩ := List.forall_mem_cons.mp h
    rw [List.map_cons, List.filterMap_cons_some hc.2, ih hcs]

/-- Between the slashes of their spelling there are the components again. -/
theorem filterMap_spelled {cs : List Component} (h : ∀ c ∈ cs, c.Plain) :
    (splitSlash (spelled cs).toList).filterMap component? = cs := by
  by_cases hn : cs = []
  · subst hn
    decide
  · rw [splitSlash_spelled hn h, filterMap_text h]

/-- A path whose first stretch is a component starts with nothing else. -/
theorem lead_none {p : Path} {piece : List Char} {pieces : List (List Char)}
    (h : splitSlash p.text.toList = piece :: pieces) (hc : component? piece ≠ none) :
    p.lead = (none, p.text.toList) := by
  have hp : piece ≠ [] ∧ piece ≠ ['.'] := by
    refine ⟨?_, ?_⟩ <;> rintro rfl <;> exact hc rfl
  unfold lead
  split
  · next hs =>
    rw [hs, splitSlash_slash] at h
    exact absurd (List.cons.inj h).1.symm hp.1
  · next hs =>
    rw [hs] at h
    exact absurd (List.cons.inj h).1.symm hp.2
  · next hs =>
    rw [hs, splitSlash, splitSlash_slash] at h
    exact absurd (List.cons.inj h).1.symm hp.2
  · rfl

/-- Plain components are those of the path that they spell. -/
theorem components_spelled {cs : List Component} (h : ∀ c ∈ cs, c.Plain) :
    components ⟨spelled cs⟩ = cs := by
  cases cs with
  | nil => decide
  | cons c cs =>
    have hl := lead_none (p := ⟨spelled (c :: cs)⟩) (splitSlash_spelled (by simp) h)
      (by simp [(h c List.mem_cons_self).2])
    rw [components, hl, filterMap_spelled h]
    rfl

theorem components_root {cs : List Component} (h : ∀ c ∈ cs, c.Plain) :
    components ⟨"/" ++ spelled cs⟩ = .root :: cs := by
  have hl : lead ⟨"/" ++ spelled cs⟩ = (some .root, (spelled cs).toList) := by
    simp [lead]
  rw [components, hl, filterMap_spelled h]
  rfl

theorem components_current {cs : List Component} (h : ∀ c ∈ cs, c.Plain) :
    components ⟨spelled (.current :: cs)⟩ = .current :: cs := by
  cases cs with
  | nil => decide
  | cons c cs =>
    have hs : spelled (.current :: c :: cs) = "./" ++ spelled (c :: cs) := by
      simp [spelled, Component.text, String.intercalate_cons_cons]
    have hl : lead ⟨"./" ++ spelled (c :: cs)⟩
        = (some .current, '/' :: (spelled (c :: cs)).toList) := by
      simp [lead]
    rw [hs, components, hl, splitSlash_slash]
    dsimp only
    rw [List.filterMap_cons_none rfl, filterMap_spelled h]
    rfl

theorem isAbsolute_iff {p : Path} : p.isAbsolute = true ↔ ∃ cs, p.text.toList = '/' :: cs := by
  simp [isAbsolute, List.head?_eq_some_iff]

/-- Below the root there are plain components only. -/
theorem components_of_absolute {p : Path} (h : p.isAbsolute = true) :
    ∃ cs, p.components = .root :: cs ∧ ∀ c ∈ cs, c.Plain := by
  obtain ⟨cs, hcs⟩ := isAbsolute_iff.mp h
  have hl : p.lead = (some .root, cs) := by simp [lead, hcs]
  refine ⟨(splitSlash cs).filterMap component?, ?_, fun c => plain_of_mem_filterMap⟩
  rw [components, hl]
  rfl

theorem components_of_relative {p : Path} (h : p.isAbsolute = false) :
    ∃ cs, (p.components = cs ∨ p.components = .current :: cs) ∧ ∀ c ∈ cs, c.Plain := by
  refine ⟨(splitSlash p.lead.2).filterMap component?, ?_, fun c => plain_of_mem_filterMap⟩
  unfold components lead
  split
  · next hs => simp [isAbsolute, hs] at h
  · exact .inr rfl
  · exact .inr rfl
  · exact .inl rfl

theorem unixText_eq (p : Path) :
    p.unixText = (if p.isAbsolute then "/" else "") ++ spelled (p.components.filter (· ≠ .root)) :=
  rfl

theorem filter_root {cs : List Component} (h : ∀ c ∈ cs, c.Plain) :
    cs.filter (· ≠ .root) = cs :=
  List.filter_eq_self.mpr fun c hc => by simpa using (h c hc).ne_root

/-- The plainest spelling of a path is a spelling of it. -/
theorem components_unixText (p : Path) : components ⟨p.unixText⟩ = p.components := by
  rw [unixText_eq]
  cases ha : p.isAbsolute with
  | true =>
    obtain ⟨cs, hp, hcs⟩ := components_of_absolute ha
    rw [hp, List.filter_cons_of_neg (by simp), filter_root hcs, if_pos rfl, components_root hcs]
  | false =>
    obtain ⟨cs, hp | hp, hcs⟩ := components_of_relative ha
    · rw [hp, filter_root hcs, if_neg Bool.false_ne_true, String.empty_append,
        components_spelled hcs]
    · rw [hp, List.filter_cons_of_pos (by simp), filter_root hcs, if_neg Bool.false_ne_true,
        String.empty_append, components_current hcs]

/-- Paths with the same plainest spelling are the same. -/
theorem eq_of_unixText {p q : Path} (h : p.unixText = q.unixText) :
    p.components = q.components := by
  rw [← p.components_unixText, h, q.components_unixText]

/-! ## Components put together -/

theorem endsWith_slash {text : String} : text.endsWith "/" = true ↔ ['/'] <:+ text.toList := by
  rw [String.endsWith_eq_endsWith_toSlice, String.Slice.endsWith_string_iff]
  simp

theorem isAbsolute_push {p q : Path} (h : p.isAbsolute = true) : (p.push q).isAbsolute = true := by
  obtain ⟨cs, hcs⟩ := isAbsolute_iff.mp h
  unfold push
  split
  · assumption
  · split <;> simp [isAbsolute, hcs]

theorem isAbsolute_text {c : Component} (h : c.Plain) : isAbsolute ⟨c.text⟩ = false := by
  rw [Bool.eq_false_iff]
  intro ha
  obtain ⟨cs, hcs⟩ := isAbsolute_iff.mp ha
  exact h.1 (by rw [hcs]; exact List.mem_cons_self)

theorem push_start {p : Path} {c : Component} (hp : p.text.isEmpty || p.text.endsWith "/")
    (hc : c.Plain) : (p.push ⟨c.text⟩).text = p.text ++ c.text := by
  rw [push, isAbsolute_text hc, if_neg Bool.false_ne_true, if_pos hp]

theorem push_behind (text : String) {c d : Component} (hd : d.Plain) (hc : c.Plain) :
    (push ⟨text ++ d.text⟩ ⟨c.text⟩).text = text ++ d.text ++ "/" ++ c.text := by
  have hn := hd.ne_nil
  have hempty : (text ++ d.text).isEmpty = false := by
    rw [Bool.eq_false_iff, ne_eq, String.isEmpty_iff, ← String.toList_eq_nil_iff]
    simp [hn]
  have hends : (text ++ d.text).endsWith "/" = false := by
    rw [Bool.eq_false_iff, ne_eq, endsWith_slash, String.toList_append]
    rintro ⟨w, hw⟩
    have hslash := hd.1
    rcases List.eq_nil_or_concat d.text.toList with hl | ⟨u, e, hl⟩
    · exact hn hl
    · rw [hl, List.concat_eq_append, ← List.append_assoc] at hw
      rw [hl] at hslash
      obtain rfl : '/' = e := by simpa using (List.append_inj' hw rfl).2
      exact hslash (by simp)
  rw [push, isAbsolute_text hc, if_neg Bool.false_ne_true, hempty, hends, if_neg (by simp)]

/-- Behind nothing, or behind the root, plain components are put with slashes between them. -/
theorem text_foldl_push {p : Path} (hp : p.text.isEmpty || p.text.endsWith "/")
    {cs : List Component} (h : ∀ c ∈ cs, c.Plain) :
    (cs.foldl (fun p c => p.push ⟨c.text⟩) p).text = p.text ++ spelled cs := by
  induction cs using List.reverseRecOn with
  | nil => simp [spelled]
  | append_singleton cs c ih =>
    obtain ⟨hcs, hc⟩ := List.forall_mem_append.mp h
    have hc := hc c List.mem_cons_self
    have ih := ih hcs
    rw [List.foldl_append]
    generalize cs.foldl (fun p c => p.push ⟨c.text⟩) p = q at ih
    obtain ⟨text⟩ := q
    dsimp only at ih
    subst ih
    rcases List.eq_nil_or_concat cs with rfl | ⟨ds, d, rfl⟩
    · simpa [spelled] using push_start (p := ⟨p.text⟩) hp hc
    · rw [List.concat_eq_append] at hcs ⊢
      obtain ⟨x, hx⟩ : ∃ x, spelled (ds ++ [d]) = x ++ d.text := by
        by_cases hn : ds = []
        · exact ⟨"", by simp [hn, spelled]⟩
        · exact ⟨spelled ds ++ "/", spelled_concat hn d⟩
      have hd : d.Plain := hcs d (by simp)
      rw [spelled_concat (by simp) c, hx, ← String.append_assoc]
      simpa [String.append_assoc] using push_behind (p.text ++ x) hd hc

theorem ofComponents_plain {cs : List Component} (h : ∀ c ∈ cs, c.Plain) :
    (ofComponents cs).components = cs := by
  have ht : (ofComponents cs).text = spelled cs := by
    simpa [ofComponents] using text_foldl_push (p := ⟨""⟩) (by simp) h
  calc (ofComponents cs).components = components ⟨spelled cs⟩ := by rw [← ht]
    _ = cs := components_spelled h

/-- Whatever comes before the root does not count. -/
theorem text_ofComponents_root {ds cs : List Component} (h : ∀ c ∈ cs, c.Plain) :
    (ofComponents (ds ++ .root :: cs)).text = "/" ++ spelled cs := by
  have hroot (p : Path) : p.push ⟨Component.root.text⟩ = ⟨"/"⟩ := by
    rw [push, if_pos (by decide)]
    rfl
  rw [ofComponents, List.foldl_append, List.foldl_cons, hroot]
  exact text_foldl_push (p := ⟨"/"⟩) (by decide +kernel) h

theorem ofComponents_root {ds cs : List Component} (h : ∀ c ∈ cs, c.Plain) :
    (ofComponents (ds ++ .root :: cs)).components = .root :: cs := by
  calc (ofComponents (ds ++ .root :: cs)).components
    _ = components ⟨"/" ++ spelled cs⟩ := by rw [← text_ofComponents_root h]
    _ = .root :: cs := components_root h

end Path
end ModuleBundler
