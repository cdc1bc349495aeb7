import ModuleBundler.Proofs.Grammar.ReadingStatement

/-! The account of what the readers of modules read, and where the part of a declaration stands
that is kept when the module is rewritten. -/
namespace ModuleBundler
open Outline

namespace Parser
variable {m : Bool} {b : Bool} {c c' : Cursor} {α : Type}

theorem afterWord_takes {word : String} {p : Parser α} {r : Option α} (outlines : α → List Outline)
    (takes : ∀ {c a c'}, p b c = .ok a c' → Takes m c [] (outlines a) c')
    (h : afterWord word p b c = .ok r c') : Takes false c [] (r.elim [] outlines) c' := by
  simp only [afterWord, bind_ok, if_apply] at h
  obtain ⟨r, c₁, hr, h⟩ := h
  have r₁ : Takes false c [] [] c₁ := .eatWord hr
  split at h
  · simp only [bind_ok, pure_ok] at h
    obtain ⟨a, c₂, ha, rfl, rfl⟩ := h
    exact (r₁.trans (takes ha)).weaken
  · obtain ⟨rfl, rfl⟩ := pure_ok.mp h
    exact r₁

theorem nameAfterWord_takes {word : String} {p : Parser Ident} {i : Option Ident}
    (fills : ∀ {c i c'}, p b c = .ok i c' → Fills c [] i.outline c')
    (h : afterWord word p b c = .ok i c') : Takes false c [] (outlinesOfIdent? i) c' := by
  have r := afterWord_takes (fun i : Ident => [i.outline]) (fun h => (fills h).takes) h
  cases i <;> exact r

/-- Names in braces, of which the opening one has been read. -/
theorem nameList_reads {item : Parser α} {as : List α} (outlines : α → List Outline)
    (takes : ∀ {c a c'}, item b c = .ok a c' → Takes m c [] (outlines a) c')
    (h : commaList .rBrace item b c = .ok as c') :
    Reads true [.curly] c [] (as.flatMap outlines) [] c' :=
  (commaList_reads (fun _ => []) outlines rfl takes h).mono fun _ => Nat.zero_le _

end Parser

/-- The module that an item imports from or exports from. -/
def Item.source? (i : Item) : Option ModuleSource :=
  match i.form with
  | .importDecl d => some d.source
  | .exportDecl (.named _ m) => m
  | .exportDecl (.all m _) => some m
  | _ => none

/-- The name of the module that an item names. -/
def outlinesOfSource? : Option ModuleSource → List Outline
  | none => []
  | some m => [.node m.span []]

namespace Grammar
open ModuleBundler.Parser

/-! ## Imports and exported names -/

section Names
variable {b : Bool} {c c' : Cursor}

theorem moduleSource_fills {m : ModuleSource} (h : moduleSource b c = .ok m c') :
    Fills c [] (.node m.span []) c' := by
  simp only [moduleSource, bind_ok, pure_ok] at h
  obtain ⟨t, _, ht, rfl, rfl⟩ := h
  obtain ⟨hs, rfl, rfl⟩ := consume_ok ht
  refine .token_next (Cursor.atEnd_of_sees hs) fun s => ?_
  rw [Cursor.kind_of_sees hs]
  rfl

theorem fromSource_takes {m : ModuleSource} (h : fromSource b c = .ok m c') :
    Takes true c [] [.node m.span []] c' := by
  simp only [fromSource, bind_ok, pure_ok] at h
  obtain ⟨_, c₁, h₁, m, c₂, h₂, _, c₃, h₃, rfl, rfl⟩ := h
  exact (consumeWord_takes h₁).trans ((moduleSource_fills h₂).takes.past (semicolon_takes h₃))

theorem namedImport_takes {i : ImportSpecifier} (h : namedImport b c = .ok i c') :
    Takes true c [] i.outlines c' := by
  simp only [namedImport, bind_ok, pure_ok] at h
  obtain ⟨name, c₁, h₁, newName, c₂, h₂, rfl, rfl⟩ := h
  exact (propertyName_fills h₁).takes.trans (nameAfterWord_takes ident_fills h₂)

theorem namedExport_takes {i : ExportSpecifier} (h : namedExport b c = .ok i c') :
    Takes true c [] i.outlines c' := by
  simp only [namedExport, bind_ok, pure_ok] at h
  obtain ⟨name, c₁, h₁, newName, c₂, h₂, rfl, rfl⟩ := h
  exact (propertyName_fills h₁).takes.trans (nameAfterWord_takes propertyName_fills h₂)

theorem importList_takes {l : List ImportSpecifier} (h : importList b c = .ok l c') :
    Takes true c [] (l.flatMap ImportSpecifier.outlines) c' := by
  simp only [importList, bind_ok, if_apply] at h
  obtain ⟨r, c₁, hr, h⟩ := h
  split at h
  · simp only [bind_ok, pure_ok] at h
    obtain ⟨_, c₂, h₂, i, c₃, h₃, rfl, rfl⟩ := h
    have r₁ : Takes false c [] [] c₁ := .eat hr fun _ => rfl
    exact r₁.trans ((consumeWord_takes h₂).trans (ident_fills h₃).takes)
  · next hf =>
    obtain rfl := eat_stays hr hf
    obtain ⟨r, c₂, hr, h⟩ := bind_ok.mp h
    rw [if_apply] at h
    split at h
    · next ht =>
      subst ht
      exact Reads.trans (.eat_true hr rfl) (nameList_reads _ namedImport_takes h)
    · cases unexpected_ok h

theorem otherImports_takes {l : List ImportSpecifier} (h : otherImports b c = .ok l c') :
    Takes false c [] (l.flatMap ImportSpecifier.outlines) c' := by
  simp only [otherImports, bind_ok, if_apply] at h
  obtain ⟨r, c₁, hr, h⟩ := h
  have r₁ : Takes false c [] [] c₁ := .eat hr fun _ => rfl
  split at h
  · exact (r₁.trans (importList_takes h)).weaken
  · obtain ⟨rfl, rfl⟩ := pure_ok.mp h
    exact r₁

theorem importNames_takes {d : ImportDecl} (h : importNames b c = .ok d c') :
    Takes true c [] (d.specifiers.flatMap ImportSpecifier.outlines ++ [.node d.source.span []])
      c' := by
  simp only [importNames, bind_ok, get_ok, if_apply] at h
  obtain ⟨_, _, ⟨rfl, rfl⟩, h⟩ := h
  split at h
  · simp only [bind_ok, pure_ok] at h
    obtain ⟨i, c₁, h₁, l, c₂, h₂, m, c₃, h₃, rfl, rfl⟩ := h
    exact (ident_fills h₁).takes.trans ((otherImports_takes h₂).trans (fromSource_takes h₃))
  · simp only [bind_ok, pure_ok] at h
    obtain ⟨l, c₁, h₁, m, c₂, h₂, rfl, rfl⟩ := h
    exact (importList_takes h₁).trans (fromSource_takes h₂)

theorem importDecl_takes {d : ImportDecl} (h : importDecl b c = .ok d c') :
    Takes true c [] (d.specifiers.flatMap ImportSpecifier.outlines ++ [.node d.source.span []])
      c' := by
  simp only [importDecl, bind_ok, get_ok, if_apply] at h
  obtain ⟨_, c₁, h₁, _, _, ⟨rfl, rfl⟩, h⟩ := h
  have r₁ : Takes true c [] [] c₁ := .consumeKeyword h₁
  split at h
  · simp only [bind_ok, pure_ok] at h
    obtain ⟨m, c₂, h₂, _, c₃, h₃, rfl, rfl⟩ := h
    exact r₁.trans ((moduleSource_fills h₂).takes.past (semicolon_takes h₃))
  · exact r₁.trans (importNames_takes h)

theorem exportAll_takes {d : ExportDecl} (h : exportAll b c = .ok d c') :
    ∃ m name, d = .all m name ∧ Takes true c [] (d.outlines ++ [.node m.span []]) c' := by
  simp only [exportAll, bind_ok, pure_ok] at h
  obtain ⟨name, c₁, h₁, m, c₂, h₂, rfl, rfl⟩ := h
  exact ⟨m, name, rfl, (nameAfterWord_takes propertyName_fills h₁).trans (fromSource_takes h₂)⟩

theorem exportNames_reads {d : ExportDecl} (h : exportNames b c = .ok d c') :
    ∃ l m, d = .named l m ∧
      Reads true [.curly] c [] (d.outlines ++ outlinesOfSource? m) [] c' := by
  simp only [exportNames, bind_ok, pure_ok] at h
  obtain ⟨l, c₁, h₁, m, c₂, h₂, _, c₃, h₃, rfl, rfl⟩ := h
  have r₂ : Takes false c₁ [] (outlinesOfSource? m) c₂ := by
    have r := afterWord_takes (fun m : ModuleSource => [.node m.span []])
      (fun h => (moduleSource_fills h).takes) h₂
    cases m <;> exact r
  exact ⟨l, m, rfl, (nameList_reads _ namedExport_takes h₁).trans (r₂.past (semicolon_takes h₃))⟩

end Names
end Grammar

/-! ## Declarations and items -/

/-- Where the part of a declaration starts that is kept when the module is rewritten. -/
def ExportDecl.keptFrom? : ExportDecl → Option Nat
  | .defaultExpr e => some e.span.start
  | .defaultDecl start _ | .decl start _ => some start.start
  | .named .. | .all .. => none

/-- Where the part of an item starts that is kept when the module is rewritten. -/
def Item.keptFrom? (i : Item) : Option Nat :=
  match i.form with
  | .importDecl _ => none
  | .exportDecl d => d.keptFrom?
  | .stmt _ => some i.span.start

/-- The parts of an item. -/
def Item.inner (i : Item) : List Visit := i.visits.tail

theorem Item.visits_eq (i : Item) : i.visits = .item i :: i.inner := rfl

namespace Grammar
open ModuleBundler.Parser

/-- A declaration was read between two places; its parts are in what is kept of it. -/
def KeptFrom (vs : List Visit) (os : List Outline) (from? : Option Nat) (c c' : Cursor) : Prop :=
  match from? with
  | none => vs = [] ∧ Takes true c [] os c'
  | some start => ∃ c₁, (∀ cs, c₁.Placed cs → start = c₁.current.span.start) ∧
      Takes false c [] [] c₁ ∧ Takes true c₁ vs os c'

namespace KeptFrom
variable {vs : List Visit} {os : List Outline} {from? : Option Nat} {m : Bool} {c c₁ c' : Cursor}

theorem takes (h : KeptFrom vs os from? c c') : Takes true c vs os c' := by
  cases from? with
  | none =>
    obtain ⟨rfl, h⟩ := h
    exact h
  | some start =>
    obtain ⟨c₁, -, hr, hv⟩ := h
    exact hr.trans hv

theorem of_takes {span : Span} (h : Takes true c vs os c')
    (hs : ∀ cs, c.Placed cs → span = c.spanTo c₁) : KeptFrom vs os (some span.start) c c' := by
  refine ⟨c, fun cs hc => ?_, .refl, h⟩
  rw [hs cs hc]
  rfl

/-- Before what is kept there may be tokens. -/
theorem before (r : Takes m c [] [] c₁) (h : KeptFrom vs os from? c₁ c') :
    KeptFrom vs os from? c c' := by
  cases from? with
  | none => exact ⟨h.1, by simpa using r.trans h.2⟩
  | some start =>
    obtain ⟨c₂, hs, hr, hv⟩ := h
    exact ⟨c₂, hs, (r.trans hr).weaken, hv⟩

end KeptFrom

namespace Accounts
variable {g : Grammar} (hg : g.Accounts) {b : Bool} {c c' : Cursor}
include hg

theorem declaration {nameOptional : Bool} {r : Span × Decl}
    (h : g.declaration nameOptional b c = .ok r c') :
    Fills c r.2.visits (.node r.1 r.2.outlines) c' := by
  simp only [Grammar.declaration, bind_ok, here_ok] at h
  obtain ⟨_, _, ⟨rfl, rfl⟩, d, c₁, hd, h⟩ := h
  cases d with
  | none => cases unexpected_ok h
  | some decl =>
    simp only [bind_ok, spanFrom_ok, pure_ok] at h
    obtain ⟨_, _, ⟨rfl, rfl⟩, rfl, rfl⟩ := h
    exact (hg.declaration? hd).fills

theorem exportDefault {d : ExportDecl} (h : g.exportDefault b c = .ok d c') :
    KeptFrom (Item.inner ⟨.nowhere, .exportDecl d⟩)
      (d.outlines ++ outlinesOfSource? (Item.source? ⟨.nowhere, .exportDecl d⟩))
      d.keptFrom? c c' := by
  simp only [Grammar.exportDefault, bind_ok, get_ok, if_apply] at h
  obtain ⟨_, _, ⟨rfl, rfl⟩, h⟩ := h
  split at h
  · simp only [bind_ok, pure_ok] at h
    obtain ⟨⟨span, decl⟩, c₁, hd, rfl, rfl⟩ := h
    have r := hg.declaration hd
    exact .of_takes r.takes r.extent
  · simp only [bind_ok, pure_ok] at h
    obtain ⟨e, c₁, he, _, c₂, hs, rfl, rfl⟩ := h
    have r := hg.assignment he
    exact .of_takes (r.takes.past (semicolon_takes hs)) fun _ => r.extent

theorem exportDecl {d : ExportDecl} (h : g.exportDecl b c = .ok d c') :
    KeptFrom (Item.inner ⟨.nowhere, .exportDecl d⟩)
      (d.outlines ++ outlinesOfSource? (Item.source? ⟨.nowhere, .exportDecl d⟩))
      d.keptFrom? c c' := by
  simp only [Grammar.exportDecl, bind_ok, if_apply] at h
  obtain ⟨_, c₁, h₁, t, c₂, h₂, h⟩ := h
  have r : Takes true c [] [] c₂ := Reads.trans (.consumeKeyword h₁) (.eat h₂ fun _ => rfl)
  split at h
  · exact .before r (hg.exportDefault h)
  obtain ⟨t, c₃, h₃, h⟩ := bind_ok.mp h
  have r : Takes true c [] [] c₃ := r.trans (.eat h₃ fun _ => rfl)
  rw [if_apply] at h
  split at h
  · obtain ⟨m, name, rfl, hr⟩ := exportAll_takes h
    exact ⟨rfl, r.trans hr⟩
  obtain ⟨t, c₄, h₄, hd⟩ := bind_ok.mp h
  rw [if_apply] at hd
  rcases eat_ok h₄ with ⟨rfl, -⟩ | ⟨rfl, -, rfl⟩
  · rw [if_pos rfl] at hd
    obtain ⟨l, m, rfl, hr⟩ := exportNames_reads hd
    exact ⟨rfl, r.trans (Reads.trans (.eat_true h₄ rfl) hr)⟩
  · rw [if_neg Bool.false_ne_true] at hd
    simp only [bind_ok, pure_ok] at hd
    obtain ⟨⟨span, decl⟩, c₅, hd, rfl, rfl⟩ := hd
    have hd := hg.declaration hd
    exact .before r (.of_takes hd.takes hd.extent)

theorem itemForm {form : ItemForm} (h : g.itemForm b c = .ok form c') :
    let i : Item := ⟨c.current.span.merge c'.previous.span, form⟩
    KeptFrom i.inner (form.outlines ++ outlinesOfSource? i.source?) i.keptFrom? c c' := by
  simp only [Grammar.itemForm, bind_ok, get_ok, if_apply] at h
  obtain ⟨_, _, ⟨rfl, rfl⟩, h⟩ := h
  split at h
  · obtain ⟨d, hd, rfl⟩ := map_ok.mp h
    exact ⟨rfl, importDecl_takes hd⟩
  split at h
  · obtain ⟨d, hd, rfl⟩ := map_ok.mp h
    exact hg.exportDecl hd
  · obtain ⟨st, hs, rfl⟩ := map_ok.mp h
    have r := (hg.readStatement hs).takes
    exact .of_takes r r.fills.extent

/-- The parts of an item are in what is kept of it, which ends with the item. -/
theorem item {i : Item} (h : g.item b c = .ok i c') :
    KeptFrom i.inner (i.form.outlines ++ outlinesOfSource? i.source?) i.keptFrom? c c' ∧
      Fills c i.visits i.outline c' := by
  simp only [Grammar.item, bind_ok, here_ok, spanFrom_ok, pure_ok] at h
  obtain ⟨_, _, ⟨rfl, rfl⟩, form, c₁, h, _, _, ⟨rfl, rfl⟩, rfl, rfl⟩ := h
  have kept := hg.itemForm h
  have r := kept.takes.refines ((Refines.refl _).append (.nil _))
  rw [List.append_nil] at r
  exact ⟨kept, (r.visit (by simp)).fills⟩

/-- A module that is read without errors is read to its end. -/
theorem items (c : Cursor) (hc : c.Ended) (he : (g.items c).errors = []) :
    ∃ c', Takes false c ((g.items c).items.flatMap Item.visits)
      ((g.items c).items.map Item.outline) c' ∧ c'.atEnd = true := by
  fun_induction Grammar.items g c with
  | case1 c hend => exact ⟨c, .refl, hend⟩
  | case2 c hend i c₁ h hl rest ih =>
    have r := (hg.item h).2.takes
    obtain ⟨c', hr, hend⟩ := ih (r.ended hc) he
    exact ⟨c', (r.trans hr).weaken, hend⟩
  | case3 c hend i c₁ h hl =>
    obtain ⟨w, hw, hm⟩ := (hg.item h).2.takes.moves hc
    have := hw.length
    have := hm rfl
    omega
  | case4 | case5 => simp at he

end Accounts
end Grammar

/-- A program is what is read from the start of its tokens to their end. -/
theorem Program.takes_of_tokens {tokens : List Token} {program : Program}
    (h : ofTokens tokens = .ok program) (hc : (Cursor.ofTokens tokens).Ended) :
    ∃ c', Takes false (Cursor.ofTokens tokens) program.visits (program.items.map Item.outline) c'
      ∧ c'.atEnd = true := by
  obtain ⟨he, rfl⟩ := ofTokens_ok.mp h
  obtain ⟨c', hr, hend⟩ := (Grammar.accounts_nested _).items _ hc he
  exact ⟨c', hr.visit (by simp), hend⟩

end ModuleBundler
