import ModuleBundler.Proofs.Grammar.Agreement
import ModuleBundler.Proofs.Grammar.Yield
import ModuleBundler.Proofs.Token.Source
import ModuleBundler.Proofs.Token.Spelling

/-! A source text whose tokens are those of a single item. -/
namespace ModuleBundler

theorem Cursor.ofTokens_ended {t : Token} {ts : List Token}
    (h : ((t :: ts).getLast?.map Token.kind) = some .eof) : ofTokens (t :: ts) = ⟨t, t, ts⟩ := by
  rw [ofTokens, if_pos h]

/-- A script may be a single item. -/
theorem Grammar.items_single {g : Grammar} {c c' : Cursor} {i : Item} (hc : c.atEnd = false)
    (h : g.item true c = .ok i c') (hl : c'.ahead.length < c.ahead.length)
    (he : c'.atEnd = true) : g.items c = ⟨[i], [], c'.current.span.stop⟩ := by
  rw [items, if_neg (Bool.eq_false_iff.mp hc), h]
  dsimp only
  rw [if_pos hl, items, if_pos he]

theorem twins_of_unplaced {ts ts' : List Token}
    (h : ts.map Token.unplaced = ts'.map Token.unplaced) (previous : Token) :
    Twins .none previous ts ts' := by
  induction ts generalizing ts' previous with
  | nil =>
    obtain rfl := List.map_eq_nil_iff.mp h.symm
    exact .nil
  | cons t ts ih =>
    obtain ⟨t', ts', rfl, ht, hts⟩ := List.map_eq_cons_iff.mp h.symm
    have hk := congrArg Token.kind ht
    have hv := congrArg Token.value ht
    have hn := congrArg Token.newlineBefore ht
    exact .cons (.same hk hv hn fun _ => rfl) (ih hts.symm t)

namespace Program
variable {t : Token} {ts : List Token} {i : Item}

theorem ofTokens_single {e : Token} (hs : t.span = .nowhere) (ht : t.kind ≠ .eof)
    (he : e.kind = .eof) (hts : ts ≠ [])
    (hend : ((t :: ts).getLast?.map Token.kind) = some .eof)
    (h : Yields (Grammar.nested (ts.length + 1)).item (t :: ts) i [e]) :
    ∃ program, ofTokens (t :: ts) = .ok program ∧ program.items = [i] := by
  obtain ⟨last, -, hi⟩ := h t hs
  have hitems := Grammar.items_single (c := ⟨t, t, ts⟩) (by simp [Cursor.atEnd, ht]) hi
    (List.length_pos_iff.mpr hts) (by simp [Cursor.atEnd, Cursor.on, he])
  refine ⟨_, ofTokens_ok.mpr ⟨?_, rfl⟩, ?_⟩
  · rw [Cursor.ofTokens_ended hend, hitems]
  · rw [Cursor.ofTokens_ended hend, hitems]

/-- A source text whose tokens are read as a statement is read as that statement alone, but for
its places. -/
theorem parse_single {source : String} {e : Token} {st : Stmt}
    (htokens : (tokenize source).map Token.unplaced = (t :: ts).map Token.unplaced)
    (hs : t.span = .nowhere) (ht : t.kind ≠ .eof) (he : e.kind = .eof) (hts : ts ≠ [])
    (h : Yields (Grammar.nested (ts.length + 1)).item (t :: ts) ⟨.nowhere, .stmt st⟩ [e]) :
    ∃ program, parse source = .ok program ∧
      program.bare .none = ⟨.nowhere, [⟨.nowhere, .stmt (st.bare .none)⟩]⟩ := by
  have hlast := Scanner.getLast?_tokens (Scanner.start source.toList)
    (source.toList.drop (hashbang source.toList).length)
  rw [← tokenize_eq] at hlast
  have hend : ((t :: ts).getLast?.map Token.kind) = some .eof := by
    have hk := congrArg (fun ts => ts.getLast?.map Token.kind) htokens
    simp only [List.getLast?_map, Option.map_map] at hk
    exact hk.symm.trans hlast
  obtain ⟨program, hp, hi⟩ := ofTokens_single hs ht he hts hend h
  obtain ⟨t', ts', ht'⟩ := tokenize_cons source
  have htwin : (Cursor.ofTokens (t :: ts)).Twin .none (Cursor.ofTokens (tokenize source)) := by
    rw [ht'] at hlast htokens ⊢
    rw [Cursor.ofTokens_ended hend, Cursor.ofTokens_ended hlast]
    exact ⟨twins_of_unplaced htokens.symm t, hend⟩
  obtain ⟨program', hp', hb⟩ := ofTokens_twin htwin hp
  refine ⟨program', hp', ?_⟩
  rw [hb, bare, hi]
  rfl

end Program
end ModuleBundler
