import ModuleBundler.Proofs.Path.Spelling

/-! Paths without detours. Taking the detours out of a path leaves nothing more to take out, and it
does not matter whether it is done before another path is put behind or after. -/
namespace ModuleBundler.Path

variable {p q : Path} {c : Component} {above cs : List Component} {absolute : Bool}

/-! ## A path behind another one -/

theorem splitSlash_append_slash (x y : List Char) :
    splitSlash (x ++ '/' :: y) = splitSlash x ++ splitSlash y := by
  induction x with
  | nil => exact splitSlash_slash y
  | cons c x ih =>
    rw [List.cons_append, splitSlash, splitSlash, ih]
    cases hx : splitSlash x with
    | nil => exact absurd hx (by rw [splitSlash_eq_splitOn]; exact List.splitOn_ne_nil _ _)
    | cons piece pieces => by_cases hc : c = '/' <;> simp [hc]

/-- The components that stand between the slashes of a path. -/
def stretches (p : Path) : List Component := (splitSlash p.text.toList).filterMap component?

theorem components_eq (p : Path) : p.components = p.lead.1.toList ++ p.stretches := by
  unfold components stretches lead
  split
  · next h =>
    rw [h, splitSlash_slash]
    rfl
  · next h =>
    rw [h]
    rfl
  · next cs h =>
    rw [h, splitSlash_slash, splitSlash, splitSlash_slash]
    rfl
  · rfl

/-- What a path starts with does not depend on what is put behind it. -/
theorem lead_append {text : List Char} (hn : p.text.toList ≠ [])
    (hq : q.text.toList = p.text.toList ++ text)
    (hs : p.text.toList = ['.'] → text.head? = some '/') : q.lead.1 = p.lead.1 := by
  obtain ⟨c, rest, hp⟩ := List.exists_cons_of_ne_nil hn
  rw [hp] at hq hs
  by_cases hroot : c = '/'
  · simp [lead, hq, hp, hroot]
  by_cases hpoint : c = '.'
  · subst hpoint
    cases rest with
    | nil =>
      obtain ⟨text, rfl⟩ := List.head?_eq_some_iff.mp (hs rfl)
      simp [lead, hq, hp]
    | cons d rest => by_cases hd : d = '/' <;> simp [lead, hq, hp, hd]
  · simp [lead, hq, hp, hroot, hpoint]

/-- Behind a path stands what stands between the slashes of a relative one. -/
theorem components_push (hn : p.text.toList ≠ []) (hq : q.isAbsolute = false) :
    (p.push q).components = p.components ++ q.stretches := by
  rw [components_eq, components_eq p, List.append_assoc]
  unfold push
  rw [if_neg (by simp [hq])]
  split
  · next hend =>
    have hslash : p.text.endsWith "/" = true := by
      simpa [String.isEmpty_iff, ← String.toList_eq_nil_iff, hn] using hend
    obtain ⟨x, hx⟩ := endsWith_slash.mp hslash
    have htext : (Path.mk (p.text ++ q.text)).text.toList = p.text.toList ++ q.text.toList :=
      String.toList_append
    have hlead : (Path.mk (p.text ++ q.text)).lead.1 = p.lead.1 :=
      lead_append hn htext fun hp => by
        rw [hp] at hx
        cases x with
        | nil => cases hx
        | cons c x => simp at hx
    rw [hlead]
    unfold stretches
    rw [htext, ← hx, List.append_assoc, List.singleton_append, splitSlash_append_slash,
      splitSlash_append_slash x [], List.filterMap_append, List.filterMap_append]
    simp [splitSlash, component?]
  · have htext : (Path.mk (p.text ++ "/" ++ q.text)).text.toList
        = p.text.toList ++ '/' :: q.text.toList := by simp
    have hlead : (Path.mk (p.text ++ "/" ++ q.text)).lead.1 = p.lead.1 :=
      lead_append hn htext fun _ => rfl
    rw [hlead]
    unfold stretches
    rw [htext, splitSlash_append_slash, List.filterMap_append]

/-! ## Taking detours out -/

/-- Components without detours, the last one first: names below the root, or below so many
directories up. -/
def Straightened (absolute : Bool) (above : List Component) : Prop :=
  ∃ (names : List String) (up : Nat),
    above = names.map .normal ++ if absolute then [.root] else List.replicate up .parent

theorem Straightened.fold (h : Straightened absolute above) (hc : c ≠ .root) :
    Straightened absolute (fold above c) := by
  obtain ⟨names, up, rfl⟩ := h
  cases c with
  | root => contradiction
  | current => exact ⟨names, up, rfl⟩
  | normal name => exact ⟨name :: names, up, rfl⟩
  | parent =>
    cases names with
    | cons name names => exact ⟨names, up, rfl⟩
    | nil =>
      cases absolute with
      | true => exact ⟨[], 0, rfl⟩
      | false =>
        refine ⟨[], up + 1, ?_⟩
        cases up <;> rfl

theorem Straightened.foldl_fold (h : Straightened absolute above) (hcs : .root ∉ cs) :
    Straightened absolute (cs.foldl Path.fold above) := by
  induction cs generalizing above with
  | nil => exact h
  | cons c cs ih =>
    obtain ⟨hc, hcs⟩ := not_or.mp (mt List.mem_cons.mpr hcs)
    exact ih (h.fold (Ne.symm hc)) hcs

theorem foldl_fold_parents (n m : Nat) : (List.replicate n .parent).foldl Path.fold
    (List.replicate m .parent) = List.replicate (n + m) .parent := by
  induction n generalizing m with
  | zero => rw [Nat.zero_add]; rfl
  | succ n ih =>
    have hfold : Path.fold (List.replicate m .parent) .parent = List.replicate (m + 1) .parent := by
      cases m <;> rfl
    rw [List.replicate_succ, List.foldl_cons, hfold, ih, Nat.succ_add_eq_add_succ]

theorem foldl_fold_names (names : List String) (above : List Component) :
    (names.map .normal).foldl fold above = (names.map .normal).reverse ++ above := by
  induction names generalizing above with
  | nil => rfl
  | cons name names ih =>
    have hfold : fold above (.normal name) = .normal name :: above := by cases above <;> rfl
    rw [List.map_cons, List.foldl_cons, hfold, ih, List.reverse_cons, List.append_assoc]
    rfl

/-- Where there are no detours, nothing is taken out. -/
theorem Straightened.foldl_reverse (h : Straightened absolute above) :
    above.reverse.foldl Path.fold [] = above := by
  obtain ⟨names, up, rfl⟩ := h
  have hbelow : (if absolute then [Component.root] else List.replicate up .parent).reverse.foldl
      Path.fold [] = if absolute then [.root] else List.replicate up .parent := by
    cases absolute with
    | true => rfl
    | false =>
      rw [if_neg Bool.false_ne_true, List.reverse_replicate]
      exact foldl_fold_parents up 0
  rw [List.reverse_append, List.foldl_append, hbelow, List.foldl_reverse]
  induction names with
  | nil => rfl
  | cons name names ih =>
    rw [List.map_cons, List.foldr_cons, ih]
    rfl

theorem mem_foldl_fold (h : c ∈ cs.foldl fold above) : c ∈ above ∨ c ∈ cs := by
  induction cs generalizing above with
  | nil => exact .inl h
  | cons d cs ih =>
    have hfold (h : c ∈ fold above d) : c ∈ above ∨ c = d := by
      unfold fold at h
      split at h
      · exact .inl h
      · exact .inl (List.mem_cons_of_mem _ h)
      · exact .inl h
      · exact (List.mem_cons.mp h).symm
    rcases ih h with h | h
    · exact (hfold h).imp_right fun hd => List.mem_cons.mpr (.inl hd)
    · exact .inr (List.mem_cons_of_mem _ h)

/-- The components of a path without detours, the last one first. -/
theorem straightened_components (p : Path) :
    Straightened p.isAbsolute (p.components.foldl fold []) := by
  cases ha : p.isAbsolute with
  | true =>
    obtain ⟨cs, hcs, hplain⟩ := components_of_absolute ha
    rw [hcs, List.foldl_cons]
    exact Straightened.foldl_fold ⟨[], 0, rfl⟩ fun hr => (hplain _ hr).ne_root rfl
  | false =>
    obtain ⟨cs, hcs, hplain⟩ := components_of_relative ha
    have hstart : Straightened false (cs.foldl fold []) :=
      Straightened.foldl_fold ⟨[], 0, rfl⟩ fun hr => (hplain _ hr).ne_root rfl
    rcases hcs with hcs | hcs
    · rwa [hcs]
    · rwa [hcs, List.foldl_cons]

/-- What is left of a path without its detours is spelled by it. -/
theorem components_normalize (p : Path) :
    p.normalize.components = (p.components.foldl fold []).reverse := by
  have hmem : ∀ c ∈ (p.components.foldl fold []).reverse, c ∈ p.components := fun c hc =>
    (mem_foldl_fold (List.mem_reverse.mp hc)).resolve_left List.not_mem_nil
  obtain ⟨names, up, hs⟩ := straightened_components p
  unfold normalize
  cases ha : p.isAbsolute with
  | true =>
    obtain ⟨cs, hcs, hplain⟩ := components_of_absolute ha
    have hroot : (p.components.foldl fold []).reverse
        = [] ++ .root :: (names.map Component.normal).reverse := by
      simp [hs, ha]
    rw [hroot] at hmem ⊢
    refine ofComponents_root fun c hc => ?_
    have hm := hmem c (List.mem_cons_of_mem _ hc)
    rw [hcs] at hm
    refine hplain c ((List.mem_cons.mp hm).resolve_left ?_)
    rintro rfl
    simp at hc
  | false =>
    obtain ⟨cs, hcs, hplain⟩ := components_of_relative ha
    refine ofComponents_plain fun c hc => ?_
    have hm := hmem c hc
    rcases hcs with hcs | hcs
    · exact hplain c (hcs ▸ hm)
    · rw [hcs] at hm
      refine hplain c ((List.mem_cons.mp hm).resolve_left ?_)
      rintro rfl
      rw [hs, ha, if_neg Bool.false_ne_true] at hc
      simp at hc

theorem normalize_congr (h : p.components.foldl fold [] = q.components.foldl fold []) :
    p.normalize = q.normalize := by
  rw [normalize, h, normalize]

theorem foldl_components_normalize (p : Path) :
    p.normalize.components.foldl fold [] = p.components.foldl fold [] := by
  rw [components_normalize, (straightened_components p).foldl_reverse]

/-- A point at the start of a path changes nothing. -/
theorem foldl_stretches (h : q.isAbsolute = false) (above : List Component) :
    q.stretches.foldl fold above = q.components.foldl fold above := by
  have hlead : q.lead.1 = none ∨ q.lead.1 = some .current := by
    unfold lead
    split
    · next hs => simp [isAbsolute, hs] at h
    · exact .inr rfl
    · exact .inr rfl
    · exact .inl rfl
  rw [components_eq]
  rcases hlead with hlead | hlead <;> rw [hlead] <;> rfl

/-- The components of a relative path are put, one by one, behind those of another path. -/
theorem foldl_push (h : q.isAbsolute = false) : (p.push q).components.foldl fold []
    = q.components.foldl fold (p.components.foldl fold []) := by
  by_cases hn : p.text.toList = []
  · have hp : p = ⟨""⟩ := congrArg Path.mk (String.toList_eq_nil_iff.mp hn)
    have hq : (Path.mk "").push q = q := by
      rw [push, if_neg (by simp [h])]
      simp
    rw [hp, hq]
    rfl
  · rw [components_push hn h, List.foldl_append, foldl_stretches h]

theorem isAbsolute_eq (p : Path) : p.isAbsolute = (p.components.head? == some .root) := by
  cases ha : p.isAbsolute with
  | true =>
    obtain ⟨cs, hcs, -⟩ := components_of_absolute ha
    rw [hcs]
    rfl
  | false =>
    obtain ⟨cs, hcs | hcs, hplain⟩ := components_of_relative ha
    · rw [hcs]
      cases cs with
      | nil => rfl
      | cons c cs => simpa using (hplain c List.mem_cons_self).ne_root
    · rw [hcs]
      rfl

/-- What is left of a path without its detours: the root or so many directories up, and names. -/
theorem exists_components_normalize (p : Path) : ∃ (up : Nat) (names : List String),
    p.normalize.components =
      (if p.isAbsolute then [.root] else List.replicate up .parent) ++ names.map .normal := by
  obtain ⟨names, up, hs⟩ := straightened_components p
  refine ⟨up, names.reverse, ?_⟩
  rw [components_normalize, hs, List.reverse_append, List.map_reverse]
  cases p.isAbsolute <;> simp

theorem isAbsolute_normalize (p : Path) : p.normalize.isAbsolute = p.isAbsolute := by
  obtain ⟨up, names, hcomponents⟩ := exists_components_normalize p
  rw [isAbsolute_eq, hcomponents]
  cases p.isAbsolute with
  | true => rfl
  | false => cases up <;> cases names <;> rfl

/-- A path without its detours is the root or so many directories up, and names behind that; it is
absolute if the path is. No detours are left to take out, and those of a path that is put behind
another one are taken out alike, whether or not the first path still has its own. -/
theorem normalize_canonical (p q : Path) :
    (∃ (up : Nat) (names : List String), p.normalize.components =
      (if p.isAbsolute then [.root] else List.replicate up .parent) ++ names.map .normal) ∧
    p.normalize.isAbsolute = p.isAbsolute ∧
    p.normalize.normalize = p.normalize ∧
    (p.push q).normalize = (p.normalize.push q).normalize := by
  refine ⟨exists_components_normalize p, isAbsolute_normalize p,
    normalize_congr (foldl_components_normalize p), ?_⟩
  cases hq : q.isAbsolute with
  | true => rw [push, if_pos hq, push, if_pos hq]
  | false =>
    refine normalize_congr ?_
    rw [foldl_push hq, foldl_push hq, foldl_components_normalize]

example : normalize ⟨"a/./../../b//c/.."⟩ = ⟨"../b"⟩ ∧ normalize ⟨"/../a/"⟩ = ⟨"/a"⟩ := by
  decide +kernel

end ModuleBundler.Path
