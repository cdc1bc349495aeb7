import ModuleBundler.Proofs.Grammar.ReadingModule

/-! What the readers put together is well-formed: a template has a text before and after each of
its expressions, so that one without expressions has a single text. -/
namespace ModuleBundler

/-- All templates in a part are well-formed. -/
def Visit.WellFormed (v : Visit) : Prop := ∀ u ∈ v.walk, u.alternates = true

/-- Some parts are well-formed. -/
def Formed (vs : List Visit) : Prop := ∀ v ∈ vs, v.WellFormed

/-- An expression of this form is well-formed. -/
def ExprForm.WellFormed (f : ExprForm) : Prop := f.alternates = true ∧ Formed f.parts

section Formed
variable {v : Visit} {vs ws : List Visit} {α : Type} {as : List α}

theorem Visit.wellFormed_iff : v.WellFormed ↔ v.alternates = true ∧ Formed v.parts := by
  rw [WellFormed, walk_eq, List.forall_mem_cons, List.forall_mem_flatMap]
  rfl

@[simp] theorem formed_nil : Formed [] := List.forall_mem_nil _

@[simp] theorem formed_cons : Formed (v :: vs) ↔ v.WellFormed ∧ Formed vs := List.forall_mem_cons

@[simp] theorem formed_append : Formed (vs ++ ws) ↔ Formed vs ∧ Formed ws :=
  List.forall_mem_append

@[simp] theorem formed_map {f : α → Visit} :
    Formed (as.map f) ↔ ∀ a ∈ as, (f a).WellFormed := List.forall_mem_map

@[simp] theorem formed_flatMap {f : α → List Visit} :
    Formed (as.flatMap f) ↔ ∀ a ∈ as, Formed (f a) := List.forall_mem_flatMap

end Formed

namespace Visit

@[simp] theorem wellFormed_expr {span : Span} {f : ExprForm} :
    (expr ⟨span, f⟩).WellFormed ↔ f.WellFormed := wellFormed_iff

@[simp] theorem wellFormed_pattern {span : Span} {f : PatternForm} :
    (pattern ⟨span, f⟩).WellFormed ↔ Formed f.parts := by simp [wellFormed_iff, alternates, parts]

@[simp] theorem wellFormed_stmt {span : Span} {f : StmtForm} :
    (stmt ⟨span, f⟩).WellFormed ↔ Formed f.parts := by simp [wellFormed_iff, alternates, parts]

@[simp] theorem wellFormed_decl {d : Decl} : (decl d).WellFormed ↔ Formed d.parts := by
  simp [wellFormed_iff, alternates, parts]

@[simp] theorem wellFormed_function {fn : FunctionDef} :
    (function fn).WellFormed ↔ Formed fn.parts := by simp [wellFormed_iff, alternates, parts]

@[simp] theorem wellFormed_class {cls : ClassDef} :
    («class» cls).WellFormed ↔ Formed cls.parts := by
  simp [wellFormed_iff, alternates, parts]

@[simp] theorem wellFormed_item {span : Span} {f : ItemForm} :
    (item ⟨span, f⟩).WellFormed ↔ Formed f.parts := by simp [wellFormed_iff, alternates, parts]

@[simp] theorem wellFormed_program {span : Span} {items : List Item} :
    (program ⟨span, items⟩).WellFormed ↔ ∀ i ∈ items, (item i).WellFormed := by
  simp [wellFormed_iff, alternates, parts]

end Visit

/-- Every template in a module that is read is well-formed. -/
theorem Program.wellFormed_of_parse {source : String} {program : Program}
    (h : Program.parse source = .ok program) : (Visit.program program).WellFormed := by
  have hc := Cursor.Ended.ofTokens (tokenize source)
  obtain ⟨c', hr, -⟩ := takes_of_tokens h hc
  obtain ⟨w, -, -, -, hcount, -⟩ := hr hc
  have hzero := List.countP_eq_zero.mp (Nat.le_zero.mp (hcount .uneven))
  exact fun v hv => by simpa [Tally.picks] using hzero v hv

end ModuleBundler
