import ModuleBundler.Proofs.Token.Ending
import ModuleBundler.Text.Quoted

/-! A quoted text is read back as a string, whatever follows it. -/
namespace ModuleBundler
open ModuleBundler.Text

namespace Escape

theorem hexDigit_control : ∀ n < 0x20, isDigitOf 16 (hexDigit (n / 16)) = true
    ∧ isDigitOf 16 (hexDigit (n % 16)) = true
    ∧ charOfCode (hexValue ['0', '0', hexDigit (n / 16), hexDigit (n % 16)]) = Char.ofNat n := by
  decide

/-- The escape of a control character by its number. -/
theorem read_control {c : Char} (h : c.toNat < 0x20) (cs : List Char) :
    read ('u' :: '0' :: '0' :: hexDigit (c.toNat / 16) :: hexDigit (c.toNat % 16) :: cs)
      = (some c, 5) := by
  obtain ⟨h₁, h₂, hc⟩ := hexDigit_control c.toNat h
  have hz : isDigitOf 16 '0' = true := by decide
  have hr : hexRun 4 ('0' :: '0' :: hexDigit (c.toNat / 16) :: hexDigit (c.toNat % 16) :: cs)
      = ['0', '0', hexDigit (c.toNat / 16), hexDigit (c.toNat % 16)] := by
    simp [hexRun, hz, h₁, h₂]
  have hu : unicode ('0' :: '0' :: hexDigit (c.toNat / 16) :: hexDigit (c.toNat % 16) :: cs)
      = (c, 4) := by
    rw [unicode, hr, hc, Char.ofNat_toNat]
    · rfl
    · exact fun _ h => absurd (List.cons.inj h).1 (by decide)
  rw [read, hu]
  rfl

/-- A character that stands for itself between double quotes. -/
def Plain (c : Char) : Prop := c ≠ '"' ∧ c ≠ '\\' ∧ c ≠ '\n' ∧ c ≠ '\r'

instance (c : Char) : Decidable (Plain c) := inferInstanceAs (Decidable (_ ∧ _ ∧ _ ∧ _))

theorem plain_hexDigit : ∀ n < 0x20, Plain (hexDigit (n / 16)) ∧ Plain (hexDigit (n % 16)) := by
  decide

/-- A quoted character is an escape, whose first character may be a quote or a backslash, or it
stands for itself. -/
theorem quoteChar_cases (c : Char) :
    (∃ x e, quoteChar c = '\\' :: x :: e ∧ x ≠ '\r' ∧ (∀ d ∈ e, Plain d)
        ∧ ∀ cs, read (x :: (e ++ cs)) = (some c, e.length + 1))
      ∨ quoteChar c = [c] ∧ Plain c := by
  unfold quoteChar
  split
  · next h => exact .inl ⟨'"', [], rfl, by decide, by simp, fun cs => by rw [h]; rfl⟩
  split
  · next h => exact .inl ⟨'\\', [], rfl, by decide, by simp, fun cs => by rw [h]; rfl⟩
  split
  · next h => exact .inl ⟨'b', [], rfl, by decide, by simp, fun cs => by rw [h]; rfl⟩
  split
  · next h => exact .inl ⟨'f', [], rfl, by decide, by simp, fun cs => by rw [h]; rfl⟩
  split
  · next h => exact .inl ⟨'n', [], rfl, by decide, by simp, fun cs => by rw [h]; rfl⟩
  split
  · next h => exact .inl ⟨'r', [], rfl, by decide, by simp, fun cs => by rw [h]; rfl⟩
  split
  · next h => exact .inl ⟨'t', [], rfl, by decide, by simp, fun cs => by rw [h]; rfl⟩
  split
  · next h =>
    obtain ⟨h₁, h₂⟩ := plain_hexDigit c.toNat h
    refine .inl ⟨'u', _, rfl, by decide, ?_, fun cs => read_control h cs⟩
    simpa [h₁, h₂] using (by decide : Plain '0')
  · exact .inr ⟨rfl, ‹_›, ‹_›, ‹_›, ‹_›⟩

theorem decode_quoted (v : List Char) : decode (v.flatMap quoteChar) = v := by
  induction v with
  | nil => exact decode_nil
  | cons c v ih =>
    rw [List.flatMap_cons]
    rcases quoteChar_cases c with ⟨x, e, hq, -, -, he⟩ | ⟨hq, hp⟩
    · rw [hq, List.cons_append, List.cons_append, decode_escape, he, List.drop_succ_cons,
        List.drop_left, ih]
      rfl
    · rw [hq, List.singleton_append, decode_plain hp.2.1, ih]

end Escape

namespace Lexeme

/-- Characters that stand for themselves do not close a string. -/
theorem stringBody_plain_append {m : Char} {u : List Char}
    (hu : ∀ c ∈ u, c ≠ m ∧ c ≠ '\\' ∧ c ≠ '\n' ∧ c ≠ '\r') (cs : List Char) :
    stringBody m (u ++ cs) = u ++ stringBody m cs := by
  induction u with
  | nil => rfl
  | cons c u ih =>
    obtain ⟨hq, hb, hn, hr⟩ := hu c List.mem_cons_self
    rw [List.cons_append, stringBody_plain hb, if_neg (by simp [hq, hn, hr]),
      ih fun d hd => hu d (List.mem_cons_of_mem c hd), List.cons_append]

theorem stringBody_quoted (v r : List Char) :
    stringBody '"' (v.flatMap quoteChar ++ '"' :: r) = v.flatMap quoteChar := by
  induction v with
  | nil => rfl
  | cons c v ih =>
    rw [List.flatMap_cons, List.append_assoc]
    rcases Escape.quoteChar_cases c with ⟨x, e, hq, hx, he, -⟩ | ⟨hq, hp⟩
    · rw [hq, List.cons_append, List.cons_append, stringBody, stringBody_plain_append he, ih]
      · rfl
      · exact fun _ h => absurd h hx
    · rw [hq, stringBody_plain_append (List.forall_mem_singleton.mpr hp), ih]

theorem string_quoted (v r : List Char) :
    string '"' (v.flatMap quoteChar ++ '"' :: r)
      = ⟨.stringLiteral, (v.flatMap quoteChar).length + 2, String.ofList v⟩ := by
  simp only [string, stringBody_quoted, List.drop_left, Escape.decode_quoted]
  rfl

end Lexeme
end ModuleBundler
