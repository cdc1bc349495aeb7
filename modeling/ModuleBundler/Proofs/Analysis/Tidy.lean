import ModuleBundler.Proofs.Analysis.Request
import ModuleBundler.Proofs.Grammar.ReadingModule

/-! The replacements of an analysis stand apart from each other: requests are tokens of their own,
and declarations change outside of the part of them that the requests are in. -/
namespace ModuleBundler
open ModuleBundler.Text

/-- The spans that may change in an item besides its requests. -/
def Item.changed (i : Item) : List Span :=
  match i.keptFrom? with
  | none => [i.span]
  | some start => [⟨i.span.start, start⟩, ⟨i.span.stop, i.span.stop⟩]

/-- The spans that may change because of a part of a module. -/
def Visit.changed : Visit → List Span
  | .item i => i.changed
  | v => (v.request?.map Request.span).toList

namespace Lowering
variable {source : List Char} {index : Nat}

theorem spans_exportBinding {s start : Span} (decl : Decl) (text : String) :
    ((exportBinding source s start decl text).replacements.map Replacement.span).Sublist
      [⟨s.start, start.start⟩, ⟨s.stop, s.stop⟩] := by
  cases decl with
  | function fn => exact List.Sublist.cons_cons _ (List.nil_sublist _)
  | _ => exact List.Sublist.refl _

theorem spans_ofItem (i : Item) :
    ((ofItem source index i).replacements.map Replacement.span).Sublist i.changed := by
  obtain ⟨s, form⟩ := i
  cases form with
  | importDecl d => exact List.Sublist.refl _
  | stmt st => exact List.nil_sublist _
  | exportDecl d =>
    cases d with
    | defaultExpr e =>
      simp only [ofItem, ofExport, ofReplacements]
      split
      · exact List.Sublist.cons_cons _ (List.nil_sublist _)
      · exact List.Sublist.refl _
    | defaultDecl start decl =>
      simp only [ofItem, ofExport]
      split
      · exact spans_exportBinding decl _
      · exact List.Sublist.refl _
    | decl start decl =>
      simp only [ofItem, ofExport]
      split
      · exact List.Sublist.cons_cons _ (List.nil_sublist _)
      · exact spans_exportBinding decl _
    | named specifiers m => cases m <;> exact List.Sublist.refl _
    | all m name => cases name <;> exact List.Sublist.refl _

end Lowering

namespace Analysis

theorem spans_visit (source : List Char) (d : Draft) (v : Visit) :
    ((d.visit source v).replacements.map Replacement.span).Sublist
      (d.replacements.map Replacement.span ++ v.changed) := by
  cases v with
  | item i =>
    simp only [Draft.visit, Draft.add, List.map_append]
    exact (List.append_sublist_append_left _).mpr (Lowering.spans_ofItem i)
  | expr e =>
    simp only [Draft.visit, Visit.changed, Visit.request?, Visit.requireCall?]
    cases e.requireCall? with
    | none => simp
    | some call => cases call <;> simp [Draft.add, RequireCall.request?]
  | _ => simp [Draft.visit]

theorem spans_foldl (source : List Char) (vs : List Visit) (d : Draft) :
    ((vs.foldl (Draft.visit source) d).replacements.map Replacement.span).Sublist
      (d.replacements.map Replacement.span ++ vs.flatMap Visit.changed) := by
  induction vs generalizing d with
  | nil => simp
  | cons v vs ih =>
    refine (ih (d.visit source v)).trans ?_
    rw [List.flatMap_cons, ← List.append_assoc]
    exact (List.append_sublist_append_right _).mpr (spans_visit source d v)

end Analysis

theorem Item.inner_isInner (i : Item) : ∀ v ∈ i.inner, v.isInner = true := by
  obtain ⟨s, form⟩ := i
  refine List.all_eq_true.mp ?_
  cases form with
  | importDecl d => rfl
  | stmt st => exact st.visits_inner
  | exportDecl d =>
    cases d with
    | defaultExpr e => exact e.visits_inner
    | defaultDecl start decl | decl start decl => exact decl.visits_inner
    | _ => rfl

/-- Inside of items only the requests change. -/
theorem changed_inner {vs : List Visit} (h : ∀ v ∈ vs, v.isInner = true) :
    vs.flatMap Visit.changed = (vs.filterMap Visit.request?).map Request.span := by
  induction vs with
  | nil => rfl
  | cons v vs ih =>
    have hv : v.changed = (v.request?.map Request.span).toList := by
      have hi := h v List.mem_cons_self
      cases v with
      | item i => cases hi
      | _ => rfl
    rw [List.flatMap_cons, ih fun u hu => h u (List.mem_cons_of_mem v hu), hv, List.filterMap_cons]
    cases v.request? <;> rfl

section Placed
variable {cs : List Char} {c c' : Cursor}

theorem Cursor.Placed.start_le {w : List Token} (hc : c.Placed cs) (h : c.Moves w c') :
    c.current.span.start ≤ c'.current.span.start := by
  by_cases hw : 0 < w.length
  · obtain ⟨hf, hstop⟩ := hc.spanTo h hw
    exact Nat.le_trans hf.ordered hstop
  · obtain rfl : w = [] := List.eq_nil_of_length_eq_zero (by omega)
    have hcur : c.current = c'.current := (List.cons.inj h.tokens).1
    exact hcur ▸ Nat.le_refl _

/-- The requests of what is read from one place to another are tokens between them. -/
theorem tidy_requests {m : Bool} {visits : List Visit} {os : List Outline} (hc : c.Placed cs)
    (h : Takes m c visits os c') :
    Tidy cs c.current.span.start c'.previous.span.stop
      ((visits.filterMap Visit.request?).map Request.span) := by
  obtain ⟨w, hw, -, -, hcount, -⟩ := h hc.ended
  obtain ⟨hf, ho⟩ := hc.passed hw
  have ht : Tidy cs c.current.span.start c'.previous.span.stop (w.map Token.span) := by
    refine ⟨fun s hs => ?_, List.pairwise_map.mpr (ho.imp fun hab => .inl hab)⟩
    obtain ⟨t, ht, rfl⟩ := List.mem_map.mp hs
    exact ⟨(hf t ht).1, hc.within hw ht⟩
  refine ht.subperm (List.subperm_ext_iff.mpr fun sp _ => ?_)
  rw [count_requests]
  exact Nat.le_trans (hcount (.calls sp)) (argumentsAt_le sp _ w)

theorem tidy_item {depth : Nat} {i : Item} (hc : c.Placed cs)
    (h : (Grammar.nested depth).item true c = .ok i c') :
    c'.Placed cs ∧ c.current.span.start ≤ c'.current.span.start ∧
      Tidy cs c.current.span.start c'.current.span.start (i.visits.flatMap Visit.changed) := by
  obtain ⟨hk, hi⟩ := (Grammar.accounts_nested depth).item h
  have hs : i.span = c.spanTo c' := hi.extent cs hc
  obtain ⟨w, hw, -, hl, -⟩ := hk.takes hc.ended
  obtain ⟨hfit, hstop⟩ := hc.spanTo hw (hl rfl)
  refine ⟨hc.moves hw, hc.start_le hw, ?_⟩
  have hv : i.visits.flatMap Visit.changed
      = i.changed ++ (i.inner.filterMap Visit.request?).map Request.span := by
    rw [Item.visits_eq, List.flatMap_cons, changed_inner i.inner_isInner]
    rfl
  rw [hv, Item.changed]
  generalize i.keptFrom? = from? at hk
  cases from? with
  | none =>
    obtain ⟨hnil, -⟩ := hk
    rw [hnil, hs]
    exact (Tidy.singleton hfit).mono (Nat.le_refl _) hstop
  | some start =>
    obtain ⟨c₁, hstart, hr, hv⟩ := hk
    obtain ⟨u, hu, -⟩ := hr hc.ended
    have hc₁ := hc.moves hu
    obtain rfl := hstart cs hc₁
    have hle := hc.start_le hu
    obtain ⟨v, hv', -, hl', -⟩ := hv hc₁.ended
    obtain ⟨hfit', -⟩ := hc₁.spanTo hv' (hl' rfl)
    have before : Tidy cs c.current.span.start c₁.current.span.start
        [⟨c.current.span.start, c₁.current.span.start⟩] :=
      Tidy.singleton (s := ⟨c.current.span.start, c₁.current.span.start⟩)
        ⟨hle, hfit.start, hfit'.start⟩
    have after : Tidy cs c'.previous.span.stop c'.current.span.start
        [⟨c'.previous.span.stop, c'.previous.span.stop⟩] :=
      (Tidy.singleton (Span.fits_place hfit.stop)).mono (Nat.le_refl _) hstop
    have all := before.append ((tidy_requests hc₁ hv).append after hfit'.ordered hstop) hle
      (Nat.le_trans hfit'.ordered hstop)
    rw [hs]
    exact all.perm (List.Perm.cons _ List.perm_append_comm)

/-- What changes in one item is apart from what changes in the others. -/
theorem tidy_items {depth : Nat} (c : Cursor) (hc : c.Placed cs)
    (he : ((Grammar.nested depth).items c).errors = []) :
    Tidy cs c.current.span.start (byteSize cs)
      (((Grammar.nested depth).items c).items.flatMap fun i => i.visits.flatMap Visit.changed) := by
  fun_induction Grammar.items (Grammar.nested depth) c with
  | case1 c hend => exact .nil
  | case2 c hend i c₁ h hl rest ih =>
    obtain ⟨hc₁, hle, ht⟩ := tidy_item hc h
    rw [List.flatMap_cons]
    have hb := (hc₁.fits _ List.mem_cons_self).start.le
    exact ht.append (ih hc₁ he) hle hb
  | case3 c hend i c₁ h hl =>
    obtain ⟨hc₁, hle, ht⟩ := tidy_item hc h
    have hb := (hc₁.fits _ List.mem_cons_self).start.le
    rw [List.flatMap_cons, List.flatMap_nil, List.append_nil]
    exact ht.mono (Nat.le_refl _) hb
  | case4 | case5 => simp at he

end Placed

namespace Analysis
variable {source : String} {program : Program} {analysis : Analysis}

theorem tidy_hashbang (cs : List Char) :
    Tidy cs 0 (byteSize (hashbang cs)) ((hashbangReplacement cs).map Replacement.span) := by
  have hf : Span.Fits cs ⟨0, byteSize (hashbang cs)⟩ :=
    ⟨Nat.zero_le _, boundary_zero cs, _, prefix_hashbang cs, rfl⟩
  unfold hashbangReplacement
  split
  · exact Tidy.singleton hf
  · exact .nil

theorem tidy_hoisted (cs : List Char) (hoisted : List String) :
    Tidy cs 0 0 ((hoistedReplacement hoisted).map Replacement.span) := by
  unfold hoistedReplacement
  split
  · exact .nil
  · exact Tidy.singleton (Span.fits_place (boundary_zero cs))

theorem tidy_trailer (cs : List Char) (trailer : List String) :
    Tidy cs (byteSize cs) (byteSize cs) ((trailerReplacement cs trailer).map Replacement.span) := by
  unfold trailerReplacement
  split
  · exact .nil
  · exact Tidy.singleton (Span.fits_place (boundary_byteSize cs))

theorem tidy_draft (h : Program.parse source = .ok program) :
    Tidy source.toList (byteSize (hashbang source.toList)) (byteSize source.toList)
      ((draft program source.toList).replacements.map Replacement.span) := by
  obtain ⟨hc, hle⟩ := Cursor.placed_tokenize source
  obtain ⟨he, hp⟩ := Program.ofTokens_ok.mp h
  have ht := (tidy_items _ hc he).mono hle (Nat.le_refl _)
  have hv : program.visits.flatMap Visit.changed
      = program.items.flatMap fun i => i.visits.flatMap Visit.changed := by
    rw [Program.visits, List.flatMap_cons, List.flatMap_assoc]
    rfl
  rw [hp] at hv
  rw [← hv, ← hp] at ht
  exact ht.sublist (spans_foldl source.toList program.visits _)

/-- The replacements of an analysis stand apart, in its text. -/
theorem tidy_replacements (h : Program.parse source = .ok program)
    (ha : ofProgram program source = .ok analysis) :
    Tidy source.toList 0 (byteSize source.toList) (analysis.replacements.map Replacement.span) := by
  unfold ofProgram at ha
  dsimp only at ha
  split at ha
  · cases ha
  · obtain rfl := Except.ok.inj ha
    have hd := tidy_draft h
    have hb : byteSize (hashbang source.toList) ≤ byteSize source.toList :=
      Boundary.le ⟨_, prefix_hashbang _, rfl⟩
    generalize draft program source.toList = d at hd
    have first := (tidy_hoisted source.toList d.hoisted).append (tidy_hashbang source.toList)
      (Nat.le_refl _) (Nat.zero_le _)
    have all := (first.append hd (Nat.zero_le _) hb).append
      (tidy_trailer source.toList d.trailer) (Nat.zero_le _) (Nat.le_refl _)
    refine all.perm ?_
    simp only [List.map_append]
    refine List.Perm.append_right _ ?_
    rw [List.append_assoc]
    exact List.perm_append_comm

end Analysis
end ModuleBundler
