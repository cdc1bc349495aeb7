import ModuleBundler.Proofs.Analysis.Reference
import ModuleBundler.Proofs.Tree.Inner

/-! Which requests the pieces of an analysis mention: all of them, but for those of lists without
names that are exported from another module. -/
namespace ModuleBundler

/-- The request of an export declaration with an empty list of names from another module. -/
def Item.emptyExport? (item : Item) : Option Request :=
  match item.form with
  | .exportDecl (.named [] (some m)) => some ⟨m.specifier, m.span⟩
  | _ => none

namespace Lowering

variable {index : Nat} {pieces : List Piece} {source : List Char} {s : Span}

theorem id_mem_requireCall : Piece.id index ∈ requireCall index := by simp [requireCall]

/-- Only white space is lost at the end of pieces. -/
theorem id_mem_trimLast (h : Piece.id index ∈ pieces) : Piece.id index ∈ trimLast pieces := by
  unfold trimLast
  split
  · next text hlast =>
    obtain ⟨front, rfl⟩ := List.getLast?_eq_some_iff.mp hlast
    simpa using h
  · exact h

theorem id_mem_replaceItem (h : Piece.id index ∈ pieces) :
    Piece.id index ∈ (replaceItem source s pieces).pieces := by
  unfold replaceItem
  dsimp only
  split
  · exact h
  · exact List.mem_append_left _ h

theorem id_mem_namedBindings {specifiers : List ImportSpecifier}
    (h : specifiers.filterMap namedBinding? ≠ []) :
    Piece.id index ∈ namedBindings index specifiers := by
  unfold namedBindings
  split
  · contradiction
  · exact List.mem_cons_of_mem _ (List.mem_append_left _ id_mem_requireCall)

/-- Every import calls `require`, whatever it binds. -/
theorem id_mem_importPieces (specifiers : List ImportSpecifier) :
    Piece.id index ∈ importPieces index specifiers := by
  unfold importPieces
  split
  · exact List.mem_append_left _ id_mem_requireCall
  · next hne =>
    obtain ⟨specifier, hmem⟩ := List.exists_mem_of_ne_nil specifiers (by simpa using hne)
    refine id_mem_trimLast (List.mem_append.mpr ?_)
    cases specifier with
    | default name =>
      exact .inl (List.mem_flatMap.mpr ⟨_, hmem, by simp [wholeBinding, requireCall]⟩)
    | «namespace» name =>
      exact .inl (List.mem_flatMap.mpr ⟨_, hmem, by simp [wholeBinding, requireCall]⟩)
    | named imported newName =>
      have hname : _ ∈ specifiers.filterMap namedBinding? :=
        List.mem_filterMap.mpr ⟨.named imported newName, hmem, rfl⟩
      exact .inr (id_mem_namedBindings (List.ne_nil_of_mem hname))

/-- A list of names from another module calls `require` for each of them. -/
theorem id_mem_exportFromPieces {specifiers : List ExportSpecifier} (h : specifiers ≠ []) :
    Piece.id index ∈ exportFromPieces index specifiers := by
  cases specifiers with
  | nil => contradiction
  | cons e es =>
    cases es with
    | nil => simp [exportFromPieces]
    | cons f fs => simp [exportFromPieces, List.intersperse_cons_cons]

/-- Where there is a request, some replacement mentions it. -/
def Mentions (index : Nat) (l : Lowering) : Prop :=
  ∀ request ∈ l.request, ∃ r ∈ l.replacements, Piece.id index ∈ r.pieces

theorem mentions_of_none {l : Lowering} (h : l.request = none) : Mentions index l := by
  simp [Mentions, h]

theorem mentions_ofSource {m : ModuleSource} (h : Piece.id index ∈ pieces) :
    Mentions index (ofSource source s m pieces) :=
  fun _ _ => ⟨_, List.mem_singleton.mpr rfl, id_mem_replaceItem h⟩

/-- Items mention what they ask for, unless they are an empty list of names. -/
theorem mentions_ofItem (item : Item) :
    Mentions index (ofItem source index item) ∨
      (ofItem source index item).request = item.emptyExport? := by
  obtain ⟨span, form⟩ := item
  cases form with
  | stmt _ => exact .inl (mentions_of_none rfl)
  | importDecl decl => exact .inl (mentions_ofSource (id_mem_importPieces _))
  | exportDecl decl =>
    cases decl with
    | named specifiers m =>
      cases m with
      | none => exact .inl (mentions_of_none rfl)
      | some m =>
        cases specifiers with
        | nil => exact .inr rfl
        | cons e es => exact .inl (mentions_ofSource (id_mem_exportFromPieces (by simp)))
    | defaultExpr expr => exact .inl (mentions_of_none rfl)
    | all m newName =>
      cases newName with
      | none => exact .inl (mentions_ofSource (by simp))
      | some name => exact .inl (mentions_ofSource (by simp))
    | defaultDecl start decl =>
      refine .inl (mentions_of_none ?_)
      simp only [ofItem, ofExport]
      split
      · exact request_exportBinding _ _ _
      · rfl
    | decl start decl =>
      refine .inl (mentions_of_none ?_)
      simp only [ofItem, ofExport]
      split
      · rfl
      · exact request_exportBinding _ _ _

end Lowering

/-- The items that a walk through a module comes upon are those of the module. -/
theorem Program.mem_items_of_visits {program : Program} {item : Item}
    (h : Visit.item item ∈ program.visits) : item ∈ program.items := by
  have h : Visit.item item ∈ program.items.flatMap Item.visits := by simpa [visits] using h
  obtain ⟨⟨span, form⟩, hmem, hv⟩ := List.mem_flatMap.mp h
  rcases List.mem_cons.mp hv with hv | hv
  · exact Visit.item.inj hv ▸ hmem
  have inner {vs : List Visit} (hvs : vs.all Visit.isInner = true) (hv : Visit.item item ∈ vs) :
      False := by
    cases List.all_eq_true.mp hvs _ hv
  cases form with
  | stmt s => exact (inner s.visits_inner hv).elim
  | importDecl decl => simp at hv
  | exportDecl decl =>
    cases decl with
    | defaultExpr e => exact (inner e.visits_inner hv).elim
    | defaultDecl _ decl | decl _ decl => exact (inner decl.visits_inner hv).elim
    | _ => simp at hv

namespace Analysis

/-- Every request is mentioned by a piece, or it is that of an empty export list among `items`. -/
def Draft.Mentioned (items : List Item) (d : Draft) : Prop :=
  ∀ i request, d.requests[i]? = some request →
    (∃ r ∈ d.replacements, Piece.id i ∈ r.pieces) ∨
      ∃ item ∈ items, item.emptyExport? = some request

variable {d : Draft} {source : List Char} {items : List Item}

theorem Draft.Mentioned.add (h : d.Mentioned items) {l : Lowering}
    (hl : l.Mentions d.requests.length ∨ ∃ item ∈ items, l.request = item.emptyExport?) :
    (d.add l).Mentioned items := by
  intro i request hi
  rw [Draft.add, List.getElem?_append] at hi
  split at hi
  · refine (h i request hi).imp_left ?_
    rintro ⟨r, hr, hid⟩
    exact ⟨r, List.mem_append_left _ hr, hid⟩
  · next hlt =>
    -- the one request that is new
    have hrequest : l.request = some request ∧ i = d.requests.length := by
      cases hr : l.request with
      | none => simp [hr] at hi
      | some request' =>
        rw [hr, Option.toList_some, List.getElem?_singleton] at hi
        split at hi
        · next hzero => exact ⟨hi, by omega⟩
        · cases hi
    obtain ⟨hrequest, rfl⟩ := hrequest
    rcases hl with hl | ⟨item, hitem, hl⟩
    · obtain ⟨r, hr, hid⟩ := hl request hrequest
      exact .inl ⟨r, List.mem_append_right _ hr, hid⟩
    · exact .inr ⟨item, hitem, hl ▸ hrequest⟩

theorem Draft.Mentioned.visit (h : d.Mentioned items) {v : Visit}
    (hv : ∀ item, v = .item item → item ∈ items) : (d.visit source v).Mentioned items := by
  unfold Draft.visit
  split
  · next item =>
    refine h.add ((Lowering.mentions_ofItem item).imp_right fun hr => ?_)
    exact ⟨item, hv item rfl, hr⟩
  · split
    · exact h.add (.inl fun _ _ => ⟨_, List.mem_singleton.mpr rfl, by simp⟩)
    · exact h
    · exact h
  · exact h

theorem Draft.Mentioned.visits (h : d.Mentioned items) {vs : List Visit}
    (hvs : ∀ item, Visit.item item ∈ vs → item ∈ items) :
    (vs.foldl (Draft.visit source) d).Mentioned items := by
  induction vs generalizing d with
  | nil => exact h
  | cons v vs ih =>
    refine ih (h.visit fun item hv => hvs item (by simp [hv])) fun item hitem => ?_
    exact hvs item (List.mem_cons_of_mem v hitem)

/-- Every request of an analysis is mentioned by a piece of some replacement, so that an answer
gets into the text, unless it is that of an export declaration with an empty list of names. -/
theorem exists_mem_pieces {program : Program} {source : String} {a : Analysis}
    (h : ofProgram program source = .ok a) {i : Nat} {request : Request}
    (hi : a.requests[i]? = some request) :
    (∃ r ∈ a.replacements, Piece.id i ∈ r.pieces) ∨
      ∃ item ∈ program.items, item.emptyExport? = some request := by
  unfold ofProgram at h
  dsimp only at h
  split at h
  · simp at h
  · obtain rfl := Except.ok.inj h
    have hempty : Draft.Mentioned program.items { Draft.empty with
        hoisted := if program.hasModuleSyntax then [Lowering.moduleMarker] else [] } := by
      simp [Draft.Mentioned, Draft.empty]
    have hall : (program.visits.foldl (Draft.visit source.toList) _).Mentioned program.items :=
      hempty.visits fun _ => Program.mem_items_of_visits
    refine (hall i request hi).imp_left ?_
    rintro ⟨r, hr, hid⟩
    refine ⟨r, ?_, hid⟩
    simp only [List.append_assoc]
    exact List.mem_append_left _ hr

/-- Nothing is written for an empty list, and the second replacement only marks the module. -/
example :
    let source := "export \x7b\x7d from './a';"
    ((Program.parse source).toOption.bind fun p => (ofProgram p source).toOption).map
      (fun a => (a.requests.length, a.replacements.map (·.pieces.length))) = some (1, [0, 2]) := by
  decide +kernel

end Analysis
end ModuleBundler
