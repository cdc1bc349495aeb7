import ModuleBundler.Analysis.Module

/-! Which requests the pieces of an analysis refer to: only those that it has. -/
namespace ModuleBundler

/-- The pieces refer to no other request than the one at an index. -/
def RefersTo (index : Nat) (pieces : List Piece) : Prop :=
  ∀ i, Piece.id i ∈ pieces → i = index

namespace Lowering

variable {index : Nat} {pieces others : List Piece} {source : List Char} {s : Span}

@[simp] theorem refersTo_nil : RefersTo index [] := by simp [RefersTo]

@[simp] theorem refersTo_append :
    RefersTo index (pieces ++ others) ↔ RefersTo index pieces ∧ RefersTo index others := by
  simp [RefersTo, or_imp, forall_and]

@[simp] theorem refersTo_text_cons (text : String) :
    RefersTo index (.text text :: pieces) ↔ RefersTo index pieces := by simp [RefersTo]

@[simp] theorem refersTo_id_cons :
    RefersTo index (.id index :: pieces) ↔ RefersTo index pieces := by
  simp [RefersTo]

@[simp] theorem refersTo_requireCall : RefersTo index (requireCall index) := by
  simp [requireCall]

theorem refersTo_flatten {lists : List (List Piece)} (h : ∀ l ∈ lists, RefersTo index l) :
    RefersTo index lists.flatten := by
  intro i hi
  obtain ⟨l, hl, hi⟩ := List.mem_flatten.mp hi
  exact h l hl i hi

theorem refersTo_trimLast (h : RefersTo index pieces) : RefersTo index (trimLast pieces) := by
  unfold trimLast
  split
  · intro i hi
    have hi : Piece.id i ∈ pieces.dropLast := by simpa using hi
    exact h i ((List.dropLast_sublist pieces).subset hi)
  · exact h

theorem refersTo_replaceItem (h : RefersTo index pieces) :
    RefersTo index (replaceItem source s pieces).pieces := by
  unfold replaceItem
  dsimp only
  split
  · exact h
  · simpa using h

theorem refersTo_importPieces (specifiers : List ImportSpecifier) :
    RefersTo index (importPieces index specifiers) := by
  unfold importPieces
  split
  · simp
  · refine refersTo_trimLast (refersTo_append.mpr ⟨?_, ?_⟩)
    · rw [List.flatMap_def]
      refine refersTo_flatten fun l hl => ?_
      obtain ⟨specifier, -, rfl⟩ := List.mem_map.mp hl
      cases specifier <;> simp [wholeBinding]
    · unfold namedBindings
      split <;> simp

theorem mem_of_mem_intersperse {α : Type} {sep a : α} {as : List α}
    (h : a ∈ as.intersperse sep) : a = sep ∨ a ∈ as := by
  induction as with
  | nil => simp at h
  | cons b bs ih =>
    cases bs with
    | nil => exact .inr h
    | cons c cs =>
      rw [List.intersperse_cons_cons] at h
      rcases List.mem_cons.mp h with rfl | h
      · simp
      rcases List.mem_cons.mp h with rfl | h
      · simp
      · exact (ih h).imp_right (List.mem_cons_of_mem b)

theorem refersTo_exportFromPieces (specifiers : List ExportSpecifier) :
    RefersTo index (exportFromPieces index specifiers) := by
  refine refersTo_flatten fun l hl => ?_
  rcases mem_of_mem_intersperse hl with rfl | hl
  · simp
  · obtain ⟨specifier, -, rfl⟩ := List.mem_map.mp hl
    simp

/-- What a lowering writes refers to no other request than its own. -/
def Own (index : Nat) (l : Lowering) : Prop :=
  ∀ r ∈ l.replacements, ∀ i, Piece.id i ∈ r.pieces → i = index ∧ l.request.isSome = true

theorem own_ofReplacements {replacements : List Replacement}
    (h : ∀ r ∈ replacements, ∀ i, Piece.id i ∉ r.pieces) :
    Own index (ofReplacements replacements) := fun r hr i hi => absurd hi (h r hr i)

theorem own_ofSource {m : ModuleSource} (h : RefersTo index pieces) :
    Own index (ofSource source s m pieces) := by
  intro r hr i hi
  rw [List.mem_singleton.mp hr] at hi
  exact ⟨refersTo_replaceItem h i hi, rfl⟩

theorem request_exportBinding (start : Span) (decl : Decl) (text : String) :
    (exportBinding source s start decl text).request = none := by
  unfold exportBinding
  dsimp only
  split <;> rfl

theorem own_exportBinding (start : Span) (decl : Decl) (text : String) :
    Own index (exportBinding source s start decl text) := by
  intro r hr i hi
  unfold exportBinding at hr
  dsimp only at hr
  split at hr
  · rw [List.mem_singleton.mp hr] at hi
    simp at hi
  · rcases List.mem_cons.mp hr with rfl | hr
    · simp at hi
    · rw [List.mem_singleton.mp hr] at hi
      simp at hi

theorem own_ofExport (decl : ExportDecl) : Own index (ofExport source s index decl) := by
  unfold ofExport
  split
  · refine own_ofReplacements fun r hr i hi => ?_
    rcases List.mem_cons.mp hr with rfl | hr
    · simp at hi
    · split at hr
      · simp at hr
      · rw [List.mem_singleton.mp hr] at hi
        simp at hi
  · split
    · exact own_exportBinding _ _ _
    · refine own_ofReplacements fun r hr i hi => ?_
      rcases List.mem_cons.mp hr with rfl | hr
      · simp at hi
      · rw [List.mem_singleton.mp hr] at hi
        simp at hi
  · split
    · refine own_ofReplacements fun r hr i hi => ?_
      rw [List.mem_singleton.mp hr] at hi
      simp at hi
    · exact own_exportBinding _ _ _
  · intro r hr i hi
    rw [List.mem_singleton.mp hr] at hi
    unfold replaceItem at hi
    dsimp only at hi
    split at hi <;> simp at hi
  · exact own_ofSource (refersTo_exportFromPieces _)
  · exact own_ofSource (by simp)
  · exact own_ofSource (by simp)

theorem own_ofItem (item : Item) : Own index (ofItem source index item) := by
  unfold ofItem
  split
  · exact own_ofSource (refersTo_importPieces _)
  · exact own_ofExport _
  · exact own_ofReplacements (by simp)

end Lowering

namespace Analysis

/-- All pieces refer to requests that there are. -/
def Draft.Referring (d : Draft) : Prop :=
  ∀ r ∈ d.replacements, ∀ i, Piece.id i ∈ r.pieces → i < d.requests.length

variable {d : Draft} {source : List Char}

theorem Draft.Referring.add (h : d.Referring) {l : Lowering} (hl : l.Own d.requests.length) :
    (d.add l).Referring := by
  intro r hr i hi
  have hlength : (d.add l).requests.length = d.requests.length + l.request.toList.length := by
    simp [Draft.add]
  rcases List.mem_append.mp hr with hr | hr
  · have := h r hr i hi
    omega
  · obtain ⟨rfl, hsome⟩ := hl r hr i hi
    obtain ⟨request, hrequest⟩ := Option.isSome_iff_exists.mp hsome
    simp [hlength, hrequest]

theorem Draft.Referring.visit (h : d.Referring) (v : Visit) : (d.visit source v).Referring := by
  unfold Draft.visit
  split
  · exact h.add (Lowering.own_ofItem _)
  · split
    · refine h.add fun r hr i hi => ?_
      rw [List.mem_singleton.mp hr] at hi
      simpa using hi
    · exact h
    · exact h
  · exact h

theorem Draft.Referring.visits (h : d.Referring) (vs : List Visit) :
    (vs.foldl (Draft.visit source) d).Referring := by
  induction vs generalizing d with
  | nil => exact h
  | cons v vs ih => exact ih (h.visit v)

theorem not_mem_statementPieces (statements : List String) (i : Nat) :
    Piece.id i ∉ statementPieces statements := by
  intro h
  rcases Lowering.mem_of_mem_intersperse h with h | h <;> simp at h

/-- The pieces of an analysis refer to requests that it has. -/
theorem lt_of_mem_pieces {program : Program} {source : String} {a : Analysis}
    (h : ofProgram program source = .ok a) :
    ∀ r ∈ a.replacements, ∀ i, Piece.id i ∈ r.pieces → i < a.requests.length := by
  unfold ofProgram at h
  dsimp only at h
  split at h
  · simp at h
  · obtain rfl := Except.ok.inj h
    intro r hr i hi
    simp only [List.mem_append] at hr
    rcases hr with ((hr | hr) | hr) | hr
    · have hempty : Draft.Referring { Draft.empty with
          hoisted := if program.hasModuleSyntax then [Lowering.moduleMarker] else [] } := by
        simp [Draft.Referring, Draft.empty]
      exact hempty.visits program.visits r hr i hi
    · unfold hoistedReplacement at hr
      split at hr
      · simp at hr
      · rw [List.mem_singleton.mp hr] at hi
        simp [not_mem_statementPieces] at hi
    · unfold hashbangReplacement at hr
      split at hr
      · rw [List.mem_singleton.mp hr] at hi
        simp at hi
      · simp at hr
    · unfold trailerReplacement at hr
      split at hr
      · simp at hr
      · rw [List.mem_singleton.mp hr] at hi
        simp [not_mem_statementPieces] at hi

end Analysis
end ModuleBundler
