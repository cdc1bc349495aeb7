import ModuleBundler.Proofs.Grammar.Enclosed
import ModuleBundler.Proofs.Grammar.ReadingModule
import ModuleBundler.Proofs.Token.Tiling

/-! Programs that are read are made of words, and their brackets match. -/
namespace ModuleBundler

/-- What is no token has no place between brackets. -/
theorem Bracket.kind_ne_error {s s' : List Bracket} {ts : List Token} (h : run s ts = some s') :
    ∀ t ∈ ts, t.kind ≠ .error := by
  induction ts generalizing s with
  | nil => simp
  | cons t ts ih =>
    obtain ⟨s₁, ht, hts⟩ := run_cons h
    refine List.forall_mem_cons.mpr ⟨fun hk => ?_, ih hts⟩
    rw [hk] at ht
    cases ht

/-- The brackets in a program that is read match, parentheses, square and curly ones and those of
the substitutions in templates alike, and there is nothing in it that is no token. -/
theorem Program.balanced_of_parse {source : String} {program : Program}
    (h : Program.parse source = .ok program) :
    (∀ t ∈ tokenize source, t.kind ≠ .error) ∧
    ∃ ts last, tokenize source = ts ++ [last] ∧ last.kind = .eof ∧ Bracket.run [] ts = some [] := by
  obtain ⟨hc, -⟩ := Cursor.placed_tokenize source
  obtain ⟨c', hr, hend⟩ := takes_of_tokens h hc.ended
  obtain ⟨w, hw, hrun, -⟩ := hr hc.ended
  obtain ⟨ts, last, ht, hts, hk, -⟩ := Scanner.tokens_concat (Scanner.start source.toList)
    (source.toList.drop (hashbang source.toList).length)
  rw [← tokenize_eq] at ht
  have htokens : (Cursor.ofTokens (tokenize source)).current
      :: (Cursor.ofTokens (tokenize source)).ahead = ts ++ [last] := by
    obtain ⟨t, us, hu⟩ := tokenize_cons source
    rw [ofTokens_tokenize hu, ← ht, hu]
  have hkind : c'.current.kind = .eof := by simpa [Cursor.atEnd] using hend
  rw [eq_of_ends (htokens.symm.trans hw.tokens) hkind fun t h => (hts t h).1] at hrun
  refine ⟨?_, ts, last, ht, hk, hrun⟩
  rw [ht]
  refine List.forall_mem_append.mpr ⟨Bracket.kind_ne_error hrun, ?_⟩
  rintro t h
  obtain rfl := List.mem_singleton.mp h
  rw [hk]
  rintro ⟨⟩

/-- Brackets of all kinds around a template with a substitution. -/
def bracketed : String := "f([`a$\x7b \x7bb: (c)\x7d \x7dd$\x7b0\x7d`, (x) => x[0]])"

theorem Program.balanced_bracketed : ∃ program, Program.parse bracketed = .ok program ∧
    (∀ t ∈ tokenize bracketed, t.kind ≠ .error) ∧
    ∃ ts last, tokenize bracketed = ts ++ [last] ∧ last.kind = .eof
      ∧ Bracket.run [] ts = some [] := by
  have hs : (Program.parse bracketed).toOption.isSome = true := by decide +kernel
  cases h : Program.parse bracketed with
  | error e =>
    rw [h] at hs
    cases hs
  | ok program => exact ⟨program, rfl, balanced_of_parse h⟩

end ModuleBundler
