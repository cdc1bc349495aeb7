import ModuleBundler.Proofs.Analysis.Reference
import ModuleBundler.Proofs.Analysis.Tidy

/-! Where requests stand in a text: apart from each other, and those of one top-level item before
those of the next. -/
namespace ModuleBundler
open ModuleBundler.Text

/-- What a part of a module asks for. -/
def Visit.asked? : Visit → Option Request
  | .item i => i.source?.map fun m => ⟨m.specifier, m.span⟩
  | v => v.request?

/-- What an item asks for, in the order of a walk through it. -/
def Item.requests (i : Item) : List Request := i.visits.filterMap Visit.asked?

namespace Analysis

theorem request_ofItem (source : List Char) (index : Nat) (i : Item) :
    (Lowering.ofItem source index i).request
      = i.source?.map fun m => ⟨m.specifier, m.span⟩ := by
  obtain ⟨span, form⟩ := i
  cases form with
  | importDecl d => rfl
  | stmt s => rfl
  | exportDecl d =>
    cases d with
    | named specifiers m => cases m <;> rfl
    | all m name => cases name <;> rfl
    | defaultExpr e => rfl
    | defaultDecl start decl =>
      simp only [Lowering.ofItem, Lowering.ofExport, Item.source?, Option.map_none]
      split
      · exact Lowering.request_exportBinding _ _ _
      · rfl
    | decl start decl =>
      simp only [Lowering.ofItem, Lowering.ofExport, Item.source?, Option.map_none]
      split
      · rfl
      · exact Lowering.request_exportBinding _ _ _

theorem requests_visit (source : List Char) (d : Draft) (v : Visit) :
    (d.visit source v).requests = d.requests ++ v.asked?.toList := by
  cases v with
  | item i => rw [Draft.visit, Draft.add, request_ofItem]; rfl
  | expr e =>
    simp only [Draft.visit, Visit.asked?, Visit.request?, Visit.requireCall?]
    cases e.requireCall? with
    | none => simp
    | some call => cases call <;> simp [Draft.add, RequireCall.request?]
  | _ => simp [Draft.visit, Visit.asked?, Visit.request?, Visit.requireCall?]

theorem requests_foldl (source : List Char) (vs : List Visit) (d : Draft) :
    (vs.foldl (Draft.visit source) d).requests = d.requests ++ vs.filterMap Visit.asked? := by
  induction vs generalizing d with
  | nil => simp
  | cons v vs ih =>
    rw [List.foldl_cons, ih, requests_visit, List.append_assoc, List.filterMap_cons]
    cases v.asked? <;> rfl

/-- An analysis has the requests of the items, one item after the other. -/
theorem requests_ofProgram {program : Program} {source : String} {analysis : Analysis}
    (h : ofProgram program source = .ok analysis) :
    analysis.requests = program.items.flatMap Item.requests := by
  unfold ofProgram at h
  dsimp only at h
  split at h
  · cases h
  · obtain rfl := Except.ok.inj h
    simp only [draft]
    rw [requests_foldl, Program.visits, List.filterMap_cons, List.filterMap_flatMap]
    rfl

end Analysis

/-- An item that names a module has no parts that ask for one. -/
theorem Item.requests_of_source {i : Item} {m : ModuleSource} (h : i.source? = some m) :
    i.requests = [⟨m.specifier, m.span⟩] ∧ i.keptFrom? = none := by
  obtain ⟨span, form⟩ := i
  cases form with
  | importDecl d =>
    obtain rfl := Option.some.inj h
    exact ⟨rfl, rfl⟩
  | stmt s => cases h
  | exportDecl d =>
    cases d with
    | named l m' =>
      obtain rfl : m' = some m := h
      exact ⟨rfl, rfl⟩
    | all m' name =>
      obtain rfl := Option.some.inj h
      exact ⟨rfl, rfl⟩
    | _ => cases h

/-- Otherwise all that asks is inside. -/
theorem Item.requests_of_no_source {i : Item} (h : i.source? = none) :
    i.requests = i.inner.filterMap Visit.request? := by
  rw [requests, visits_eq, List.filterMap_cons_none (by simp [Visit.asked?, h])]
  refine List.filterMap_congr fun v hv => ?_
  have hi := i.inner_isInner v hv
  cases v with
  | item j => cases hi
  | _ => rfl

section Placed
variable {cs : List Char} {c c' : Cursor} {depth : Nat}

/-- What an item asks for stands apart, between its first token and the token after it. -/
theorem tidy_asked {i : Item} (hc : c.Placed cs)
    (h : (Grammar.nested depth).item true c = .ok i c') :
    Tidy cs c.current.span.start c'.current.span.start (i.requests.map Request.span) := by
  have hr := (((Grammar.accounts_nested depth).item h).1).takes
  obtain ⟨w, hw, -, hl, -, hlaid⟩ := hr hc.ended
  obtain ⟨-, hstop⟩ := hc.spanTo hw (hl rfl)
  cases hs : i.source? with
  | none =>
    rw [Item.requests_of_no_source hs]
    exact (tidy_requests hc hr).mono (Nat.le_refl _) hstop
  | some m =>
    have hm : .node m.span [] ∈ i.form.outlines ++ outlinesOfSource? i.source? := by
      simp [hs, outlinesOfSource?]
    have hfits := ((hlaid _ hc).nested _ hm).fits (hc.tokensOrdered hw)
      fun t ht => ((hc.passed hw).1 t ht).1
    obtain ⟨hle, hge⟩ := (hr.inside hc).1 _ hm
    rw [(Item.requests_of_source hs).1]
    exact (Tidy.singleton hfits).mono hle (Nat.le_trans hge hstop)

/-- What one item asks for stands before what the next one asks for. -/
theorem items_pairwise (c : Cursor) (hc : c.Placed cs)
    (he : ((Grammar.nested depth).items c).errors = []) :
    (∀ i ∈ ((Grammar.nested depth).items c).items,
      Tidy cs c.current.span.start (byteSize cs) (i.requests.map Request.span)) ∧
    ((Grammar.nested depth).items c).items.Pairwise fun i j =>
      ∀ r ∈ i.requests, ∀ s ∈ j.requests, r.span.stop ≤ s.span.start := by
  fun_induction Grammar.items (Grammar.nested depth) c with
  | case1 c hend => simp
  | case2 c hend i c₁ h hl rest ih =>
    obtain ⟨hc₁, hle, -⟩ := tidy_item hc h
    obtain ⟨hall, hpair⟩ := ih hc₁ he
    have ht := tidy_asked hc h
    have hb := (hc₁.fits _ List.mem_cons_self).start.le
    refine ⟨List.forall_mem_cons.mpr ⟨ht.mono (Nat.le_refl _) hb, fun j hj => ?_⟩,
      List.pairwise_cons.mpr ⟨fun j hj r hr s hs => ?_, hpair⟩⟩
    · exact (hall j hj).mono hle (Nat.le_refl _)
    · have h₁ := (ht.within _ (List.mem_map_of_mem hr)).2.2
      have h₂ := ((hall j hj).within _ (List.mem_map_of_mem hs)).2.1
      exact Nat.le_trans h₁ h₂
  | case3 c hend i c₁ h hl =>
    obtain ⟨hc₁, -, -⟩ := tidy_item hc h
    have hb := (hc₁.fits _ List.mem_cons_self).start.le
    simpa using (tidy_asked hc h).mono (Nat.le_refl _) hb
  | case4 | case5 => simp at he

end Placed

/-- All requests of a module stand apart in its text. They are those of its items, and whatever
one item asks for stands before all that the items after it ask for. -/
theorem Analysis.requests_apart {source : String} {program : Program} {analysis : Analysis}
    (h : Program.parse source = .ok program) (ha : ofProgram program source = .ok analysis) :
    analysis.requests = program.items.flatMap Item.requests ∧
    (analysis.requests.map Request.span).Pairwise Span.Apart ∧
    program.items.Pairwise fun i j =>
      ∀ r ∈ i.requests, ∀ s ∈ j.requests, r.span.stop ≤ s.span.start := by
  have hr := requests_ofProgram ha
  obtain ⟨hc, -⟩ := Cursor.placed_tokenize source
  obtain ⟨he, rfl⟩ := Program.ofTokens_ok.mp h
  obtain ⟨hall, hpair⟩ := items_pairwise _ hc he
  refine ⟨hr, ?_, hpair⟩
  rw [hr, List.pairwise_map, List.pairwise_flatMap]
  refine ⟨fun i hi => ?_, hpair.imp fun hij r hr s hs => .inl (hij r hr s hs)⟩
  exact List.pairwise_map.mp (hall i hi).apart

/-- Inside one item the walk decides: it looks at the test of a `do` loop before the body. -/
example :
    let source := "do \x7b require('./a'); \x7d while (require('./b'));"
    ((Program.parse source).toOption.bind fun p => (Analysis.ofProgram p source).toOption).map
      (fun a => a.requests.map (·.specifier)) = some ["./b", "./a"] := by decide +kernel

end ModuleBundler
