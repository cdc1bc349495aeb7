import ModuleBundler.Path.Basic

/-! Sets of paths, in the order of paths. -/
namespace ModuleBundler

/-- A set of paths in ascending order; of two spellings of one path it keeps the first. -/
structure PathSet where
  toList : List Path
  sorted : toList.Pairwise fun p q => p.compare q = .lt

namespace PathSet

/-- No path. -/
def empty : PathSet := ⟨[], .nil⟩

/-- Whether a path is in the set, in any spelling. -/
def contains (s : PathSet) (p : Path) : Bool := s.toList.contains p

/-- Puts a path before the first one behind it, unless it is there already. -/
def insertInto (p : Path) : List Path → List Path
  | [] => [p]
  | q :: qs =>
    match p.compare q with
    | .lt => p :: q :: qs
    | .eq => q :: qs
    | .gt => q :: insertInto p qs

theorem mem_insertInto {p r : Path} {ps : List Path} (h : r ∈ insertInto p ps) :
    r = p ∨ r ∈ ps := by
  induction ps with
  | nil => simpa [insertInto] using h
  | cons q qs ih =>
    unfold insertInto at h
    split at h
    · simpa using h
    · exact .inr h
    · rcases List.mem_cons.mp h with rfl | h
      · simp
      · rcases ih h with rfl | h <;> simp [*]

theorem insertInto_sorted (p : Path) {ps : List Path}
    (h : ps.Pairwise fun p q => p.compare q = .lt) :
    (insertInto p ps).Pairwise fun p q => p.compare q = .lt := by
  induction ps with
  | nil => simp [insertInto]
  | cons q qs ih =>
    obtain ⟨hq, hqs⟩ := List.pairwise_cons.mp h
    unfold insertInto
    split
    · next hlt =>
      refine .cons (fun r hr => ?_) h
      rcases List.mem_cons.mp hr with rfl | hr
      · exact hlt
      · exact Std.TransCmp.lt_trans hlt (hq r hr)
    · exact h
    · next hgt =>
      refine .cons (fun r hr => ?_) (ih hqs)
      rcases mem_insertInto hr with rfl | hr
      · exact Std.OrientedCmp.lt_of_gt hgt
      · exact hq r hr

/-- The set with a path. -/
def insert (s : PathSet) (p : Path) : PathSet :=
  ⟨insertInto p s.toList, insertInto_sorted p s.sorted⟩

/-- The paths that pass a test. -/
def filter (keep : Path → Bool) (s : PathSet) : PathSet :=
  ⟨s.toList.filter keep, s.sorted.filter keep⟩

/-- The set without a path. -/
def erase (s : PathSet) (p : Path) : PathSet := s.filter (· != p)

/-- The paths of the first set that are not in the second. -/
def diff (s t : PathSet) : PathSet := s.filter fun p => !t.contains p

/-- The paths of a list. -/
def ofList (ps : List Path) : PathSet := ps.foldl insert empty

/-- Whether there is no path. -/
def isEmpty (s : PathSet) : Bool := s.toList.isEmpty

theorem contains_iff {s : PathSet} {p : Path} :
    s.contains p = true ↔ ∃ q ∈ s.toList, (p == q) = true := by
  simp only [contains, List.contains_iff_exists_mem_beq]

theorem contains_insert (s : PathSet) (p q : Path) :
    (s.insert p).contains q = ((q == p) || s.contains q) := by
  change (insertInto p s.toList).contains q = ((q == p) || s.toList.contains q)
  induction s.toList with
  | nil => simp [insertInto]
  | cons r rs ih =>
    unfold insertInto
    split
    · simp
    · next h =>
      have h := Path.compare_eq_eq_iff.mp h
      cases hq : q == p
      · simp
      · simp [PartialEquivBEq.trans hq h]
    · simp [ih, Bool.or_left_comm]

@[simp] theorem contains_empty (p : Path) : empty.contains p = false := rfl

theorem contains_erase (s : PathSet) (p q : Path) :
    (s.erase p).contains q = (!(q == p) && s.contains q) := by
  rw [Bool.eq_iff_iff]
  simp only [erase, filter, contains, List.contains_iff_exists_mem_beq, List.mem_filter,
    Bool.and_eq_true, Bool.not_eq_true']
  constructor
  · rintro ⟨r, ⟨hr, hne⟩, hqr⟩
    refine ⟨?_, r, hr, hqr⟩
    cases hqp : q == p
    · rfl
    · simp [bne, PartialEquivBEq.trans (PartialEquivBEq.symm hqr) hqp] at hne
  · rintro ⟨hqp, r, hr, hqr⟩
    refine ⟨r, ⟨hr, ?_⟩, hqr⟩
    cases hrp : r == p
    · simp [bne, hrp]
    · simp [PartialEquivBEq.trans hqr hrp] at hqp

end PathSet
end ModuleBundler
