/-! Sets of characters given by ranges of code points. -/
namespace ModuleBundler.Text

/-- One of the closed ranges holds the character's code point. -/
def covered (ranges : List (Nat × Nat)) (c : Char) : Bool :=
  ranges.any fun r => r.1 ≤ c.toNat && c.toNat ≤ r.2

@[simp] theorem covered_nil (c : Char) : covered [] c = false := rfl

theorem covered_append (r s : List (Nat × Nat)) (c : Char) :
    covered (r ++ s) c = (covered r c || covered s c) := by
  simp [covered]

theorem covered_iff (ranges : List (Nat × Nat)) (c : Char) :
    covered ranges c = true ↔ ∃ r ∈ ranges, r.1 ≤ c.toNat ∧ c.toNat ≤ r.2 := by
  simp [covered]

end ModuleBundler.Text
