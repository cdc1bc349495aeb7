import ModuleBundler.Proofs.Path.Normal
import ModuleBundler.Proofs.Path.Relative

/-! The name of a module leads back to its file. -/
namespace ModuleBundler.Path

variable {context p q : Path} {cs ds above : List Component}

/-- What leads neither up nor to the root is a name. -/
theorem exists_names (h : ∀ c ∈ cs, c.Plain) (hup : .parent ∉ cs) :
    ∃ names : List String, cs = names.map .normal := by
  induction cs with
  | nil => exact ⟨[], rfl⟩
  | cons c cs ih =>
    obtain ⟨hc, hcs⟩ := List.forall_mem_cons.mp h
    obtain ⟨hne, hup⟩ := not_or.mp (mt List.mem_cons.mpr hup)
    obtain ⟨names, rfl⟩ := ih hcs hup
    cases c with
    | root => exact absurd rfl hc.ne_root
    | current => cases hc.2
    | parent => contradiction
    | normal name => exact ⟨name :: names, rfl⟩

theorem exists_names_of_absolute (h : p.isAbsolute = true) (hup : .parent ∉ p.components) :
    ∃ names : List String, p.components = .root :: names.map .normal := by
  obtain ⟨cs, hcs, hplain⟩ := components_of_absolute h
  rw [hcs] at hup ⊢
  obtain ⟨names, rfl⟩ := exists_names hplain fun hm => hup (List.mem_cons_of_mem _ hm)
  exact ⟨names, rfl⟩

/-- As many steps up as there are names lead to where the names begin. -/
theorem foldl_fold_climb (names : List String) (below : List Component) :
    (List.replicate names.length .parent).foldl fold (names.map .normal ++ below) = below := by
  induction names with
  | nil => rfl
  | cons name names ih => exact ih

/-- The way from one place to another leads there. -/
theorem foldl_fold_way (here there : List String) (below : List Component) :
    (way (here.map .normal) (there.map .normal)).foldl fold ((here.map .normal).reverse ++ below)
      = (there.map .normal).reverse ++ below := by
  have hcommon := take_commonLength (here.map .normal) (there.map .normal)
  unfold way
  generalize commonLength (here.map .normal) (there.map .normal) = n at hcommon ⊢
  have hclimb : (List.replicate ((here.map Component.normal).length - n) .parent).foldl fold
      ((here.map .normal).reverse ++ below) = ((there.take n).map .normal).reverse ++ below := by
    have hsplit : (here.map Component.normal).reverse ++ below
        = (here.drop n).reverse.map .normal ++ (((there.take n).map .normal).reverse ++ below) := by
      rw [List.map_take, hcommon, List.map_reverse, List.map_drop, ← List.append_assoc,
        ← List.reverse_append, List.take_append_drop]
    have hlength : (here.map Component.normal).length - n = (here.drop n).reverse.length := by simp
    rw [hsplit, hlength, foldl_fold_climb]
  rw [List.foldl_append, hclimb, ← List.map_drop, foldl_fold_names, ← List.append_assoc,
    ← List.reverse_append, ← List.map_append, List.take_append_drop]

/-- Behind its first point the name of a module is the way to its file. -/
theorem stretches_moduleId (hc : context.components = .root :: cs)
    (hp : p.components = .root :: ds) (h : ∀ d ∈ ds, d.Plain) :
    (Path.mk (context.moduleId p)).stretches = way cs ds := by
  have hcomponents := components_relativeTo hc hp h
  have hplain : ∀ c ∈ way cs ds, c.Plain := by
    intro c hm
    rcases List.mem_append.mp hm with hm | hm
    · rw [List.eq_of_mem_replicate hm]
      exact plain_parent
    · exact h c (List.mem_of_mem_drop hm)
  have hrelative : (relativeTo context p).isAbsolute = false := by
    rw [isAbsolute_eq, hcomponents]
    cases hw : way cs ds with
    | nil => rfl
    | cons c w => simpa using (hplain c (hw ▸ List.mem_cons_self)).ne_root
  have htext : (context.moduleId p).toList = ['.'] ++ '/' :: (spelled (way cs ds)).toList := by
    rw [moduleId, unixText_eq, hrelative, hcomponents, filter_root hplain]
    simp
  have hpoint : (splitSlash ['.']).filterMap component? = [] := by decide
  rw [stretches, htext, splitSlash_append_slash, List.filterMap_append, filterMap_spelled hplain,
    hpoint, List.nil_append]

/-- Taken from the context, the name of a module is the path of its file without detours. -/
theorem absolutize_moduleId_eq (hc : context.isAbsolute = true) (hcu : .parent ∉ context.components)
    (hp : p.isAbsolute = true) (hpu : .parent ∉ p.components) :
    context.absolutize ⟨context.moduleId p⟩ = p.normalize := by
  obtain ⟨here, hhere⟩ := exists_names_of_absolute hc hcu
  obtain ⟨there, hthere⟩ := exists_names_of_absolute hp hpu
  have hplain : ∀ d ∈ there.map Component.normal, d.Plain := by
    obtain ⟨ds, hds, hplain⟩ := components_of_absolute hp
    rw [hds] at hthere
    rwa [(List.cons.inj hthere).2] at hplain
  have hrelative : isAbsolute ⟨context.moduleId p⟩ = false := by simp [isAbsolute, moduleId]
  rw [absolutize, if_neg (by simp [hrelative])]
  refine normalize_congr ?_
  rw [foldl_push hrelative, ← foldl_stretches hrelative, stretches_moduleId hhere hthere hplain,
    hhere, hthere, List.foldl_cons, List.foldl_cons, foldl_fold_names, foldl_fold_names]
  exact foldl_fold_way here there [.root]

/-- A path without detours has none to be taken out. -/
theorem normalize_beq (hp : p.isAbsolute = true) (hpu : .parent ∉ p.components) :
    (p.normalize == p) = true := by
  obtain ⟨names, hnames⟩ := exists_names_of_absolute hp hpu
  have hroot : fold [] .root = [.root] := rfl
  rw [beq_iff, components_normalize, hnames, List.foldl_cons, hroot, foldl_fold_names]
  simp

/-- Seen from a directory, the name of a module leads back to the path of its file, and so files of
one name are at one path. -/
theorem absolutize_moduleId (hc : context.isAbsolute = true) (hcu : .parent ∉ context.components)
    (hp : p.isAbsolute = true) (hpu : .parent ∉ p.components) :
    (context.absolutize ⟨context.moduleId p⟩ == p) = true ∧
      ∀ q, q.isAbsolute = true → .parent ∉ q.components →
        (context.moduleId p = context.moduleId q ↔ (p == q) = true) := by
  have hback {q : Path} (hq : q.isAbsolute = true) (hqu : .parent ∉ q.components) :
      (context.absolutize ⟨context.moduleId q⟩ == q) = true := by
    rw [absolutize_moduleId_eq hc hcu hq hqu]
    exact normalize_beq hq hqu
  refine ⟨hback hp hpu, fun q hq hqu => ⟨fun h => ?_, fun h => ?_⟩⟩
  · have hleft := hback hp hpu
    rw [h] at hleft
    exact PartialEquivBEq.trans (PartialEquivBEq.symm hleft) (hback hq hqu)
  · rw [moduleId, moduleId, relativeTo, relativeTo, (beq_iff p q).mp h]

theorem absolutize_moduleId_beside :
    let context : Path := ⟨"/project/app"⟩
    let p : Path := ⟨"/project//lib/./a.js"⟩
    context.moduleId p = "./../lib/a.js" ∧ context.isAbsolute = true ∧
      .parent ∉ context.components ∧ p.isAbsolute = true ∧ .parent ∉ p.components ∧
      (context.absolutize ⟨context.moduleId p⟩ == p) = true ∧
      (context.moduleId p = context.moduleId context ↔ (p == context) = true) := by
  intro context p
  have hc : context.isAbsolute = true := by decide
  have hcu : .parent ∉ context.components := by decide
  have hp : p.isAbsolute = true := by decide
  have hpu : .parent ∉ p.components := by decide
  obtain ⟨hback, hsame⟩ := absolutize_moduleId hc hcu hp hpu
  exact ⟨by decide +kernel, hc, hcu, hp, hpu, hback, hsame context hc hcu⟩

end ModuleBundler.Path
