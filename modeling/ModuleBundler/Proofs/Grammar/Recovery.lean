import ModuleBundler.Proofs.Grammar.Agreement
import ModuleBundler.Proofs.Grammar.Blame
import ModuleBundler.Proofs.Grammar.Progress
import ModuleBundler.Proofs.Token.Tiling

/-! The errors of a module that cannot be read move forward: reading goes on behind the tokens that
an error is about, so that none of them is blamed twice. -/
namespace ModuleBundler
open ModuleBundler.Text

/-! ## Faults about tokens that stand one after the other -/

namespace Span.Covers
variable {a : Span} {w : List Token}

theorem first (h : a.Covers w) : ∃ t ∈ w, t.span.start = a.start := by
  obtain ⟨t, ht, hs⟩ := Option.map_eq_some_iff.mp h.start
  exact ⟨t, List.mem_of_head? ht, hs⟩

theorem last (h : a.Covers w) : ∃ t ∈ w, t.span.stop = a.stop := by
  obtain ⟨t, ht, hs⟩ := Option.map_eq_some_iff.mp h.stop
  exact ⟨t, List.mem_of_getLast? ht, hs⟩

end Span.Covers

/-- A fault starts before another one, and ends where that starts or earlier. -/
structure ParseError.Before (e f : ParseError) : Prop where
  start : e.span.start < f.span.start
  apart : e.span.stop ≤ f.span.start

namespace ParseError.About
variable {e f : ParseError} {u v w : List Token}

/-- What a fault is about is a stretch of the text. -/
theorem fits {cs : List Char} (h : e.About w) (hw : ∀ t ∈ w, t.span.Fits cs)
    (ho : w.Pairwise fun t u => t.span.stop ≤ u.span.start) : e.span.Fits cs := by
  obtain ⟨v, hv, hc⟩ := h
  obtain ⟨t, ht, hstart⟩ := hc.first
  obtain ⟨u, hu, hstop⟩ := hc.last
  have hv' : Token.Ordered v := Token.Ordered.stretch ⟨fun t ht => (hw t ht).ordered, ho⟩ hv
  constructor
  · calc
      e.span.start ≤ u.span.start := (hv'.in_of_covers hc hu).1
      _ ≤ u.span.stop := hv'.valid u hu
      _ = e.span.stop := hstop
  · rw [← hstart]
    exact (hw t (hv.subset ht)).start
  · rw [← hstop]
    exact (hw u (hv.subset hu)).stop

/-- A fault about tokens that are not empty is before one about later tokens. -/
theorem before (he : e.About u) (hf : f.About v) (ho : Token.Ordered (u ++ v))
    (hu : ∀ t ∈ u, t.span.start < t.span.stop) : e.Before f := by
  obtain ⟨x, hx, hcx⟩ := he
  obtain ⟨y, hy, hcy⟩ := hf
  obtain ⟨t, ht, hstop⟩ := hcx.last
  obtain ⟨r, hr, hstart⟩ := hcy.first
  have hx' : Token.Ordered x := ho.stretch (hx.trans (List.prefix_append u v).isInfix)
  have hapart : t.span.stop ≤ r.span.start :=
    (List.pairwise_append.mp ho.apart).2.2 t (hx.subset ht) r (hy.subset hr)
  constructor
  · calc
      e.span.start ≤ t.span.start := (hx'.in_of_covers hcx ht).1
      _ < t.span.stop := hu t (hx.subset ht)
      _ ≤ r.span.start := hapart
      _ = f.span.start := hstart
  · rw [← hstop, ← hstart]
    exact hapart

end ParseError.About

/-! ## Runs with errors -/

namespace Cursor

/-- No token that is left is empty, but for end marks. -/
def Wide (c : Cursor) : Prop :=
  ∀ t ∈ c.current :: c.ahead, t.kind ≠ .eof → t.span.start < t.span.stop

theorem Wide.moves {c c' : Cursor} {w : List Token} (h : c.Wide) (hw : c.Moves w c') : c'.Wide := by
  intro t ht
  refine h t ?_
  rw [hw.tokens]
  exact List.mem_append_right w ht

end Cursor

namespace Grammar

/-- The faults of a run are about tokens that were left at its start, and each is before those
that come after it. -/
structure Forward (c : Cursor) (errors : List ParseError) : Prop where
  about : ∀ e ∈ errors, e.About (c.current :: c.ahead)
  ascend : errors.Pairwise ParseError.Before

namespace Forward
variable {c c' : Cursor} {e : ParseError} {es : List ParseError} {w : List Token}

theorem nil : Forward c [] := ⟨List.forall_mem_nil _, .nil⟩

/-- Tokens that are read before do not matter. -/
theorem before (h : Forward c' es) (hw : c.Moves w c') : Forward c es := by
  refine ⟨fun e he => (h.about e he).mono ?_, h.ascend⟩
  rw [hw.tokens]
  exact (List.suffix_append w _).isInfix

/-- A fault about tokens that are passed before the others. -/
theorem cons {cs : List Char} (h : Forward c' es) (hc : c.Placed cs) (hwide : c.Wide)
    (hw : c.Moves w c') (hn : ∀ t ∈ w, t.kind ≠ .eof) (he : e.About w) :
    Forward c (e :: es) := by
  have htokens := hw.tokens
  have hall : Token.Ordered (c.current :: c.ahead) :=
    ⟨fun t ht => (hc.fits t ht).ordered, hc.ordered⟩
  have hmem : ∀ t ∈ w, t ∈ c.current :: c.ahead := fun t ht => by
    rw [htokens]
    exact List.mem_append_left _ ht
  rw [htokens] at hall
  constructor
  · refine List.forall_mem_cons.mpr ⟨he.mono ?_, (h.before hw).about⟩
    rw [htokens]
    exact (List.prefix_append w _).isInfix
  · refine List.pairwise_cons.mpr ⟨fun f hf => ?_, h.ascend⟩
    exact he.before (h.about f hf) hall fun t ht => hwide t (hmem t ht) (hn t ht)

/-- A fault about tokens up to the next one, when nothing else is wrong. -/
theorem only (hw : c.Moves w c') (he : e.About (w ++ [c'.current])) : Forward c [e] := by
  refine ⟨List.forall_mem_singleton.mpr (he.mono ?_), List.pairwise_singleton _ _⟩
  exact ⟨[], c'.ahead, by simp [hw.tokens]⟩

end Forward

theorem ReadsItems.of_atEnd {g : Grammar} {c : Cursor} {p : Parsed} (h : g.ReadsItems c p)
    (hend : c.atEnd = true) : p.errors = [] := by
  cases h with
  | stop => rfl
  | item h | error h =>
    rw [hend] at h
    cases h

/-- An error is about tokens up to the one where reading stops, and reading goes on behind that. -/
theorem ReadsItems.forward {g : Grammar} {cs : List Char} (hm : g.MovesOn)
    (hitem : ∀ {c : Cursor}, c.Placed cs → c.Fares (g.item true c)) {c : Cursor} {p : Parsed}
    (h : g.ReadsItems c p) : c.Placed cs → c.Wide → Forward c p.errors := by
  induction h with
  | stop => exact fun _ _ => .nil
  | @item c c' i rest _ round _ ih =>
    intro hc hwide
    have hr := hitem hc
    rw [round] at hr
    cases hr with
    | ok moves => exact (ih (hc.moves moves) (hwide.moves moves)).before moves
  | @error c c' e rest _ round more ih =>
    intro hc hwide
    have hr := hitem hc
    rw [round] at hr
    cases hr with
    | error blames =>
      obtain ⟨w, moves, about⟩ := blames
      obtain ⟨w', moves', hw⟩ := hm.item.error hc.ended round
      obtain rfl := moves.unique moves'
      -- `w` is passed before the error is found, and `v` until reading goes on
      rcases Cursor.passes_afterError (moves.ended hc.ended) with ⟨v, hv, hne, hnv⟩ | ⟨hend, hstay⟩
      · have hpass := moves.trans hv
        have hnext : [c'.current] <+: v := by
          obtain ⟨t, v, rfl⟩ := List.exists_cons_of_ne_nil hne
          obtain ⟨ht, -⟩ := List.cons.inj hv.tokens
          exact ⟨v, by rw [ht]; rfl⟩
        have hrest := ih (hc.moves hpass) (hwide.moves hpass)
        exact hrest.cons hc hwide hpass (List.forall_mem_append.mpr ⟨hw, hnv⟩)
          (about.mono ((List.prefix_append_right_inj w).mpr hnext).isInfix)
      -- an error at the end mark may be about it, but then there are no others
      · have hstop : c'.afterError.atEnd = true := by rw [hstay, hend]
        rw [more.of_atEnd hstop]
        exact .only moves about

end Grammar

/-! ## Whole modules -/

theorem tokenize_wide {source : String} : (Cursor.ofTokens (tokenize source)).Wide := by
  obtain ⟨ts, last, hts, hwide, hend, -⟩ := (Scanner.start source.toList).tokens_concat
    (source.toList.drop (hashbang source.toList).length)
  rw [← tokenize_eq] at hts
  obtain ⟨first, rest, hcons⟩ := tokenize_cons source
  rw [ofTokens_tokenize hcons]
  intro t ht hk
  rw [← hcons, hts] at ht
  rcases List.mem_append.mp ht with ht | ht
  · exact (hwide t ht).2
  · rw [List.mem_singleton.mp ht] at hk
    exact absurd hend hk

/-- The errors of a source text move forward along it. -/
structure Program.ErrorsAscend (source : String) (errors : List ParseError) : Prop where
  nonempty : errors ≠ []
  /-- Each one is about some tokens next to each other. -/
  about : ∀ e ∈ errors, ∃ v, v <:+: tokenize source ∧ e.span.Covers v
  /-- Each one is in the text, and splits no character of it. -/
  inside : ∀ e ∈ errors, e.span.Fits source.toList
    ∧ e.span.start ≤ e.span.stop ∧ e.span.stop ≤ byteSize source.toList
  ascend : (errors.map fun e => e.span.start).Pairwise (· < ·)
  /-- None goes back over what an earlier one is about. -/
  forward : errors.Pairwise fun e f => e.span.stop ≤ f.span.start
  once : errors.Nodup

/-- Wherever in the grammar an error comes up, reading goes on behind the text that it is about. -/
theorem Program.errors_ascend {source : String} {errors : List ParseError}
    (h : Program.parse source = .error errors) : ErrorsAscend source errors := by
  obtain ⟨hne, herrors⟩ := Program.ofTokens_error.mp h
  obtain ⟨hc, -⟩ := Cursor.placed_tokenize source
  obtain ⟨t, ts, ht⟩ := tokenize_cons source
  generalize (Cursor.ofTokens (tokenize source)).ahead.length + 1 = depth at herrors
  have hmoves := Grammar.movesOn_nested depth
  obtain ⟨habout, hascend⟩ := (hmoves.readsItems hc.ended).forward hmoves
    (fun hc => hc.fares_item depth true) hc tokenize_wide
  rw [← herrors] at habout hascend
  have hfits : ∀ e ∈ errors, e.span.Fits source.toList := fun e he =>
    (habout e he).fits hc.fits hc.ordered
  constructor
  · exact hne
  · rwa [ofTokens_tokenize ht, ← ht] at habout
  · exact fun e he => ⟨hfits e he, (hfits e he).ordered, (hfits e he).stop.le⟩
  · exact List.pairwise_map.mpr (hascend.imp fun h => h.start)
  · exact hascend.imp fun h => h.apart
  · refine hascend.imp fun h he => ?_
    rw [he] at h
    exact Nat.lt_irrefl _ h.start

/-- A target that is a call, a call of `import` and a declaration without a name. -/
def slips : String := "for ([a, f(1)] of x) y;\nimport(1);\nlet 5"

/-- What is wrong with the slips. -/
def slipErrors : List ParseError :=
  [⟨.assignmentTarget, ⟨9, 13⟩⟩, ⟨.dynamicImport, ⟨24, 31⟩⟩,
    ⟨.expectedPattern .numberLiteral, ⟨39, 40⟩⟩]

theorem Program.errors_ascend_slips :
    Program.parse slips = .error slipErrors ∧ ErrorsAscend slips slipErrors := by
  have h : Program.parse slips = .error slipErrors :=
    Program.ofTokens_error.mpr ⟨List.cons_ne_nil _ _, by decide +kernel⟩
  exact ⟨h, errors_ascend h⟩

end ModuleBundler
