import ModuleBundler.Proofs.Path.Normal

/-! What is made of an absolute path is absolute. -/
namespace ModuleBundler.Path

variable {p q : Path}

theorem isAbsolute_absolutize (h : p.isAbsolute = true) (q : Path) :
    (p.absolutize q).isAbsolute = true := by
  unfold absolutize
  split
  · next hq => rwa [isAbsolute_normalize]
  · rw [isAbsolute_normalize]
    exact isAbsolute_push h

theorem isAbsolute_parent? (h : p.isAbsolute = true) (hq : p.parent? = some q) :
    q.isAbsolute = true := by
  obtain ⟨cs, hcs⟩ := isAbsolute_iff.mp h
  have hl : p.lead = (some .root, cs) := by simp [lead, hcs]
  simp only [parent?, hl] at hq
  split at hq
  · next hs => cases hs
  · cases hq
  · cases hq
    simp [isAbsolute, Component.text]

/-- The directories above a file are absolute if it is. -/
theorem isAbsolute_ancestors (h : p.isAbsolute = true) :
    ∀ q ∈ p.ancestors, q.isAbsolute = true := by
  have hall (depth : Nat) {p : Path} (h : p.isAbsolute = true) :
      ∀ q ∈ p.ancestorsUpTo depth, q.isAbsolute = true := by
    induction depth generalizing p with
    | zero => simpa [ancestorsUpTo] using h
    | succ depth ih =>
      refine List.forall_mem_cons.mpr ⟨h, ?_⟩
      split
      · simp
      · next above habove => exact ih (isAbsolute_parent? h habove)
  exact hall _ h

end ModuleBundler.Path
