import ModuleBundler.Proofs.Grammar.ReadingModule
import ModuleBundler.Proofs.Token.Tiling

/-! In a program that is read the spans nest. -/
namespace ModuleBundler
open Outline

/-- The items that are read are in order, and apart. -/
theorem Grammar.Accounts.items_ordered {g : Grammar} (hg : g.Accounts) {cs : List Char} (c : Cursor)
    (hc : c.Placed cs) (he : (g.items c).errors = []) :
    (g.items c).items.Pairwise fun i j => i.span.stop ≤ j.span.start := by
  fun_induction Grammar.items g c with
  | case1 c hend => exact .nil
  | case2 c hend i c₁ h hl rest ih =>
    have r := (hg.item h).2.takes
    obtain ⟨u, hu, -, -, -, hi⟩ := r hc.ended
    obtain ⟨c', hr, -⟩ := hg.items c₁ (r.ended hc.ended) he
    obtain ⟨v, hv, -, -, -, hrest⟩ := hr (r.ended hc.ended)
    refine List.pairwise_cons.mpr ⟨fun j hj => ?_, ih (r.placed hc) he⟩
    exact (hi cs hc).before (hc.tokensOrdered (hu.trans hv)) (hrest cs (r.placed hc))
      (List.mem_singleton_self _) (List.mem_map_of_mem hj)
  | case3 c hend i c₁ h hl => exact List.pairwise_singleton _ _
  | case4 | case5 => simp at he

/-- The spans of a program nest. A node is named by the parts that lead to it from the program. -/
structure Program.SpansNest (program : Program) (source : String) : Prop where
  /-- A node starts where a token starts, and ends where that or a later one ends. -/
  covers : ∀ place a, place ≠ [] → program.outline.spanAt? place = some a →
    ∃ w, w <:+: tokenize source ∧ a.Covers w
  /-- What is below a node is inside of it. -/
  inside : ∀ place below a b, place ≠ [] → program.outline.spanAt? place = some a →
    program.outline.spanAt? (place ++ below) = some b → b.In a
  /-- The items are in order, and apart. -/
  items : program.items.Pairwise fun i j => i.span.stop ≤ j.span.start
  /-- Nodes of which none is above the other are apart, but for the key of a property that is
  written as its key alone, and the value that it stands for. -/
  apart : ∀ place place' a b, program.outline.spanAt? place = some a →
    program.outline.spanAt? place' = some b → ¬place <+: place' → ¬place' <+: place →
    a.Apart b ∨ program.outline.KeyAndValue place place'
      ∨ program.outline.KeyAndValue place' place

theorem Program.spansNest_of_parse {source : String} {program : Program}
    (h : Program.parse source = .ok program) : program.SpansNest source := by
  obtain ⟨hc, -⟩ := Cursor.placed_tokenize source
  obtain ⟨c', hr, -⟩ := takes_of_tokens h hc.ended
  obtain ⟨w, hw, -, -, -, hlaid⟩ := hr hc.ended
  have hlaid := hlaid _ hc
  have hordered := hc.tokensOrdered hw
  have hwindow : w <:+: tokenize source := by
    obtain ⟨t, ts, ht⟩ := tokenize_cons source
    have htokens := hw.tokens
    rw [ofTokens_tokenize ht] at htokens
    rw [ht, htokens]
    exact (List.prefix_append _ _).isInfix
  constructor
  · intro place a hn ha
    obtain ⟨v, hv, hcovers⟩ := (hlaid.covers hordered hn ha).1
    exact ⟨v, hv.trans hwindow, hcovers⟩
  · intro place below a b hn ha hb
    exact (hlaid.covers hordered hn ha).2 below b hb
  · obtain ⟨he, rfl⟩ := ofTokens_ok.mp h
    exact (Grammar.accounts_nested _).items_ordered _ hc he
  · intro place place' a b ha hb
    exact hlaid.apart_places hordered ha hb

/-- Names in braces, a loop over a target in parentheses, a template and an arrow function. -/
def layered : String :=
  "import a, \x7bb as c\x7d from 'm'; for ([(x)] of y) f(`t$\x7b \x7bz\x7d \x7d`, async (r) => r)"

theorem Program.spansNest_layered : ∃ program, Program.parse layered = .ok program ∧
    program.SpansNest layered := by
  have hs : (Program.parse layered).toOption.isSome = true := by decide +kernel
  cases h : Program.parse layered with
  | error e =>
    rw [h] at hs
    cases hs
  | ok program => exact ⟨program, rfl, spansNest_of_parse h⟩

/-- The key of a shorthand property and the value that it stands for are not apart. -/
example : (Program.parse "(\x7ba\x7d)").toOption.map (fun p =>
      (p.outline.spanAt? [0, 0, 0, 0, 0, 0], p.outline.spanAt? [0, 0, 0, 0, 0, 1]))
    = some (some ⟨2, 3⟩, some ⟨2, 3⟩) := by decide +kernel

end ModuleBundler
