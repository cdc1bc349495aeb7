import ModuleBundler.Proofs.Path.Spelling

/-! The way from a directory to a file, as it is in the name of a module: it tells files apart. -/
namespace ModuleBundler.Path

theorem commonLength_le (cs ds : List Component) : commonLength cs ds ≤ cs.length := by
  fun_induction commonLength cs ds with
  | case1 cs d ds ih => exact Nat.succ_le_succ ih
  | case2 | case3 => exact Nat.zero_le _

theorem take_commonLength (cs ds : List Component) :
    ds.take (commonLength cs ds) = cs.take (commonLength cs ds) := by
  fun_induction commonLength cs ds with
  | case1 cs d ds ih => rw [List.take_succ_cons, List.take_succ_cons, ih]
  | case2 | case3 => simp

theorem plain_parent : Component.parent.Plain := by
  constructor <;> decide

variable {context p q : Path} {cs ds : List Component}

/-- The components of the way from one place below the root to another. -/
def way (cs ds : List Component) : List Component :=
  List.replicate (cs.length - commonLength cs ds) .parent ++ ds.drop (commonLength cs ds)

/-- The way from an absolute directory goes up to where the two paths part, and down. -/
theorem components_relativeTo (hc : context.components = .root :: cs)
    (hp : p.components = .root :: ds) (h : ∀ d ∈ ds, d.Plain) :
    (relativeTo context p).components = way cs ds := by
  have hl : commonLength (.root :: cs) (.root :: ds) = commonLength cs ds + 1 := by
    simp [commonLength]
  rw [relativeTo, hc, hp, hl, List.drop_succ_cons, List.length_cons, Nat.add_sub_add_right]
  refine ofComponents_plain fun c hcm => ?_
  rcases List.mem_append.mp hcm with hcm | hcm
  · rw [List.eq_of_mem_replicate hcm]
    exact plain_parent
  · exact h c (List.mem_of_mem_drop hcm)

/-- There is no way from a relative path to an absolute one, which stays as it is. -/
theorem components_relativeTo_of_relative (hc : context.isAbsolute = false)
    (hp : p.isAbsolute = true) : (relativeTo context p).components = p.components := by
  obtain ⟨ds, hd, h⟩ := components_of_absolute hp
  have hl : commonLength context.components (.root :: ds) = 0 := by
    obtain ⟨cs, hcs | hcs, hplain⟩ := components_of_relative hc
    · rw [hcs]
      cases cs with
      | nil => rfl
      | cons c cs => simp [commonLength, (hplain c List.mem_cons_self).ne_root]
    · simp [hcs, commonLength]
  rw [relativeTo, hd]
  rw [hl, List.drop_zero, ofComponents_root h]

theorem count_drop_parent (n : Nat) (h : .parent ∉ ds) : (ds.drop n).count .parent = 0 :=
  List.count_eq_zero.mpr fun hm => h (List.mem_of_mem_drop hm)

/-- What goes up as far, and down the same way, comes to the same place. -/
theorem eq_of_way (hd : .parent ∉ ds) {es : List Component} (he : .parent ∉ es)
    (h : way cs ds = way cs es) : ds = es := by
  unfold way at h
  have hcount := congrArg (List.count .parent) h
  rw [List.count_append, List.count_append, List.count_replicate_self, List.count_replicate_self,
    count_drop_parent _ hd, count_drop_parent _ he] at hcount
  have hl : commonLength cs ds = commonLength cs es := by
    have := commonLength_le cs ds
    have := commonLength_le cs es
    omega
  rw [hl] at h
  calc ds = ds.take (commonLength cs ds) ++ ds.drop (commonLength cs ds) :=
        (List.take_append_drop _ ds).symm
    _ = es.take (commonLength cs es) ++ es.drop (commonLength cs es) := by
        rw [take_commonLength, take_commonLength, hl, List.append_cancel_left h]
    _ = es := List.take_append_drop _ es

/-- Seen from one directory, files of one name are at one path. Below an absolute directory that
holds of paths that do not go up. -/
theorem components_of_moduleId (hp : p.isAbsolute = true) (hq : q.isAbsolute = true)
    (hup : context.isAbsolute = true → .parent ∉ p.components ∧ .parent ∉ q.components)
    (h : context.moduleId p = context.moduleId q) : p.components = q.components := by
  have hway : (relativeTo context p).components = (relativeTo context q).components :=
    eq_of_unixText (by simpa [moduleId] using h)
  cases hc : context.isAbsolute with
  | false =>
    rwa [components_relativeTo_of_relative hc hp, components_relativeTo_of_relative hc hq] at hway
  | true =>
    obtain ⟨hup, huq⟩ := hup hc
    obtain ⟨cs, hcs, -⟩ := components_of_absolute hc
    obtain ⟨ds, hds, hd⟩ := components_of_absolute hp
    obtain ⟨es, hes, he⟩ := components_of_absolute hq
    rw [components_relativeTo hcs hds hd, components_relativeTo hcs hes he] at hway
    rw [hds] at hup ⊢
    rw [hes] at huq ⊢
    rw [eq_of_way (fun hm => hup (List.mem_cons_of_mem _ hm))
      (fun hm => huq (List.mem_cons_of_mem _ hm)) hway]

end ModuleBundler.Path
