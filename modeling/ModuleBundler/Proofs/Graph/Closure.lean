import ModuleBundler.Proofs.Graph.Attribution
import ModuleBundler.Proofs.Graph.Recursion

/-! What a name is given to during a build: a module and all that it reaches, since a name that is
met on the way has gone on from there already, or waits. -/
namespace ModuleBundler

namespace Graph

open scoped Classical in
/-- A module and all that it reaches get a name, unless they have it. -/
noncomputable def nameReached (g : Graph) (id name : String) : Graph :=
  { g with modules := g.modules.map fun m =>
      if Reaches g.modules id m.id ∧ m.hasName name = false then m.addName name else m }

variable {p : Project} {name a id : String} {waiting : List String} {ms ns : List Module}
  {m n : Module} {g after : Graph} {path : Path}

/-- A list of renamed modules is known by what becomes of each of them. -/
theorem eq_map_of_renamed {f : Module → Module} (h : List.Forall₂ (Renamed name) ms ns)
    (hf : ∀ m ∈ ms, ∀ n ∈ ns, Renamed name m n → n = f m) : ns = ms.map f := by
  induction h with
  | nil => rfl
  | cons hr _ ih =>
    rw [List.map_cons, ← hf _ (by simp) _ (by simp) hr, ← ih]
    exact fun m hm n hn => hf m (List.mem_cons_of_mem _ hm) n (List.mem_cons_of_mem _ hn)

/-- What holds of the modules that have been built while others wait: the index says where they
stand, and whatever a module depends on has been built, under all its names, or waits. -/
structure Consistent (name : String) (waiting : List String) (index : List (String × Nat))
    (ms : List Module) : Prop where
  indexed : Leads index ms
  apart : ∀ id ∈ waiting, ¬ Knows ms id
  known : ∀ m ∈ ms, ∀ d ∈ m.dependencies, Knows ms d.id ∨ d.id ∈ waiting
  /-- Only the name of the build that is under way may still have to go on from what waits. -/
  named : ∀ a, ∀ m ∈ ms, m.hasName a = true → ∀ d ∈ m.dependencies,
    Named a ms d.id ∨ a = name ∧ d.id ∈ waiting

namespace Consistent

variable {index : List (String × Nat)}

theorem graph (h : Consistent name waiting g.index g.modules) : g.Indexed := h.indexed

theorem named_or_unknown (h : Consistent name waiting index ms) :
    ∀ m ∈ ms, m.hasName name = true → ∀ d ∈ m.dependencies,
      Named name ms d.id ∨ ¬ Knows ms d.id := by
  intro m hm hmn d hd
  rcases h.named name m hm hmn d hd with hd | ⟨-, hd⟩
  · exact .inl hd
  · exact .inr (h.apart d.id hd)

/-- The name that spreads from a module gets to all that the module reaches. -/
theorem named_of_reaches (h : Consistent name waiting g.index g.modules)
    (hr : Reaches g.modules id a) (ha : Knows g.modules a) :
    Named name (g.spreadName id name).modules a := by
  induction hr with
  | refl => exact h.graph.named_spreadName ha
  | tail _ hab ih =>
    obtain ⟨m, hm, rfl, d, hd, rfl⟩ := hab
    obtain ⟨n, hn, hid, hname⟩ := ih ⟨m, hm, rfl⟩
    obtain ⟨m', hm', hmr⟩ := exists_of_renamed (spreadName_renamed g id name) hn
    obtain rfl := eq_of_id_eq h.indexed.nodup hm' hm (hmr.id_eq.symm.trans hid)
    rcases h.graph.spreadName_closed h.named_or_unknown n hn hname d
      (hmr.dependencies_eq ▸ hd) with hnamed | hunknown
    · exact hnamed
    · exact absurd ha hunknown

/-- Spreading a name step by step is giving it to all that is reached. -/
theorem spreadName_eq (h : Consistent name waiting g.index g.modules) :
    g.spreadName id name = g.nameReached id name := by
  have hr := spreadName_renamed g id name
  have hn : (((g.spreadName id name).modules).map (·.id)).Nodup :=
    h.graph.spreadName.nodup
  suffices hmodules : (g.spreadName id name).modules = (g.nameReached id name).modules from
    congrArg (fun modules => { g with modules }) hmodules
  refine eq_map_of_renamed hr fun m hm n hmem hmn => ?_
  rcases hmn with rfl | ⟨hlacks, rfl⟩
  · -- left alone: if it were reached, it would have had the name before
    rw [if_neg]
    rintro ⟨hreach, hlacks⟩
    obtain ⟨k, hk, hid, hkn⟩ := h.named_of_reaches hreach ⟨n, hm, rfl⟩
    rw [eq_of_id_eq hn hk hmem hid, hlacks] at hkn
    cases hkn
  · have hgiven : Named name (g.spreadName id name).modules m.id :=
      ⟨m.addName name, hmem, rfl, by simp⟩
    rcases h.graph.reaches_of_named_spreadName hgiven with ⟨k, hk, hid, hkn⟩ | hreach
    · rw [eq_of_id_eq h.indexed.nodup hk hm hid, hlacks] at hkn
      cases hkn
    · rw [if_pos ⟨hreach, hlacks⟩]

theorem spreadName (h : Consistent name waiting g.index g.modules) :
    Consistent name waiting g.index (g.spreadName id name).modules := by
  have hr := spreadName_renamed g id name
  constructor
  case indexed => exact h.graph.spreadName
  case apart => exact fun id hid => knows_spreadName.not.mpr (h.apart id hid)
  case known =>
    intro n hn d hd
    obtain ⟨m, hm, hmn⟩ := exists_of_renamed hr hn
    rw [knows_spreadName]
    exact h.known m hm d (hmn.dependencies_eq ▸ hd)
  case named =>
    intro a n hn hna d hd
    obtain ⟨m, hm, hmn⟩ := exists_of_renamed hr hn
    by_cases ha : a = name
    · subst ha
      rcases h.graph.spreadName_closed h.named_or_unknown n hn hna d hd with hd' | hd'
      · exact .inl hd'
      · rcases h.known m hm d (hmn.dependencies_eq ▸ hd) with hk | hw
        · exact absurd hk hd'
        · exact .inr ⟨rfl, hw⟩
    · rw [hmn.hasName_ne ha] at hna
      exact (h.named a m hm hna d (hmn.dependencies_eq ▸ hd)).imp_left (·.renamed hr)

/-- One more module waits. -/
theorem push (h : Consistent name waiting index ms) (hid : ¬ Knows ms id) :
    Consistent name (id :: waiting) index ms where
  indexed := h.indexed
  apart := List.forall_mem_cons.mpr ⟨hid, h.apart⟩
  known := fun m hm d hd => (h.known m hm d hd).imp_right (List.mem_cons_of_mem _)
  named := fun a m hm hma d hd =>
    (h.named a m hm hma d hd).imp_right fun hw => ⟨hw.1, List.mem_cons_of_mem _ hw.2⟩

/-- A module waits no more when all that it depends on has the name or waits. -/
theorem append (h : Consistent name (m.id :: waiting) index ms) (hnew : m.id ∉ waiting)
    (hname : m.names = [name])
    (hmet : ∀ d ∈ m.dependencies, Named name ms d.id ∨ d.id ∈ m.id :: waiting) :
    Consistent name waiting ((m.id, ms.length) :: index) (ms ++ [m]) := by
  have hknown {id : String} (hid : Knows ms id ∨ id ∈ m.id :: waiting) :
      Knows (ms ++ [m]) id ∨ id ∈ waiting := by
    rcases hid with hid | hid
    · exact .inl (hid.mono (List.subset_append_left _ _))
    · rcases List.mem_cons.mp hid with rfl | hid
      · exact .inl ⟨m, by simp, rfl⟩
      · exact .inr hid
  have hnamed {a id : String} (hid : Named a ms id ∨ a = name ∧ id ∈ m.id :: waiting) :
      Named a (ms ++ [m]) id ∨ a = name ∧ id ∈ waiting := by
    rcases hid with ⟨k, hk, hid⟩ | ⟨rfl, hid⟩
    · exact .inl ⟨k, List.mem_append_left _ hk, hid⟩
    · rcases List.mem_cons.mp hid with rfl | hid
      · exact .inl ⟨m, by simp, rfl, by simp [Module.hasName, hname]⟩
      · exact .inr ⟨rfl, hid⟩
  constructor
  case indexed => exact h.indexed.append (h.apart m.id List.mem_cons_self)
  case apart =>
    rintro id hid ⟨k, hk, rfl⟩
    rcases List.mem_append.mp hk with hk | hk
    · exact h.apart k.id (List.mem_cons_of_mem _ hid) ⟨k, hk, rfl⟩
    · rw [List.mem_singleton.mp hk] at hid
      exact hnew hid
  case known =>
    intro k hk d hd
    rcases List.mem_append.mp hk with hk | hk
    · exact hknown (h.known k hk d hd)
    · rw [List.mem_singleton.mp hk] at hd
      exact hknown ((hmet d hd).imp_left (·.knows))
  case named =>
    intro a k hk hka d hd
    rcases List.mem_append.mp hk with hk | hk
    · exact hnamed (h.named a k hk hka d hd)
    · rw [List.mem_singleton.mp hk] at hd hka
      obtain rfl : a = name := by simpa [Module.hasName, hname] using hka
      exact hnamed ((hmet d hd).imp_right fun hw => ⟨rfl, hw⟩)

end Consistent
end Graph

open ModuleBundler.Graph

variable {p : Project} {name : String} {waiting : List String} {g after : Graph}
  {ds : List Dependency} {failure : Option BundleError}

/-- What a visit leaves: names are not lost, and the dependencies have the name or wait. -/
structure Graph.Met (name : String) (waiting : List String) (g after : Graph)
    (ds : List Dependency) : Prop where
  consistent : Consistent name waiting after.index after.modules
  kept : ∀ {id}, Named name g.modules id → Named name after.modules id
  met : ∀ d ∈ ds, Named name after.modules d.id ∨ d.id ∈ waiting

/-- In a recursive build, spreading a name step by step is giving it to all that is reached. -/
theorem Visits.nameReached (h : Visits p name spreadName waiting g ds after failure)
    (hc : Consistent name waiting g.index g.modules) (labels : ∀ d ∈ ds, d.id = p.idOf d.path) :
    Visits p name nameReached waiting g ds after failure ∧
      (failure = none → Met name waiting g after ds) := by
  induction h with
  | nothing => exact ⟨.nothing, fun _ => ⟨hc, id, by simp⟩⟩
  | @built _ g _ d others _ known _ ih =>
    have hr := spreadName_renamed g d.id name
    obtain ⟨rest, hmet⟩ := ih hc.spreadName (List.forall_mem_cons.mp labels).2
    rw [hc.spreadName_eq] at rest
    refine ⟨.built known rest, fun hf => ?_⟩
    obtain ⟨consistent, kept, met⟩ := hmet hf
    refine ⟨consistent, fun hid => kept (hid.renamed hr), List.forall_mem_cons.mpr ⟨?_, met⟩⟩
    exact .inl (kept (hc.graph.named_spreadName (hc.graph.has_iff.mp known)))
  | inProgress unknown waits _ ih =>
    obtain ⟨rest, hmet⟩ := ih hc (List.forall_mem_cons.mp labels).2
    refine ⟨.inProgress unknown waits rest, fun hf => ?_⟩
    obtain ⟨consistent, kept, met⟩ := hmet hf
    exact ⟨consistent, kept, List.forall_mem_cons.mpr ⟨.inr waits, met⟩⟩
  | unloaded unknown new load => exact ⟨.unloaded unknown new load, by simp⟩
  | @unfinished _ g _ d _ _ m _ unknown new load _ ih =>
    have hid : m.id = d.id := (Project.load_id load).1.trans (labels d (by simp)).symm
    have hnot : ¬ Knows g.modules m.id := by simp [hid, ← hc.graph.has_iff, unknown]
    exact ⟨.unfinished unknown new load (ih (hc.push hnot) (Project.load_loaded load).labels).1,
      by simp⟩
  | @loaded _ g middle _ d _ _ m _ unknown new load _ _ ihInner ihRest =>
    obtain ⟨hid, -, hnames⟩ := Project.load_id load
    replace hid : m.id = d.id := hid.trans (labels d (by simp)).symm
    have hnot : ¬ Knows g.modules m.id := by simp [hid, ← hc.graph.has_iff, unknown]
    obtain ⟨inner, hmet⟩ := ihInner (hc.push hnot) (Project.load_loaded load).labels
    obtain ⟨consistent, kept, met⟩ := hmet rfl
    have happend : Consistent name _ (middle.append m).index (middle.append m).modules :=
      consistent.append (hid ▸ new) hnames met
    obtain ⟨rest, hmet⟩ := ihRest happend (List.forall_mem_cons.mp labels).2
    refine ⟨.loaded unknown new load inner rest, fun hf => ?_⟩
    obtain ⟨consistent, kept', met⟩ := hmet hf
    have hkept {id : String} (hn : Named name middle.modules id) :
        Named name (middle.append m).modules id := Walk.named_append.mpr (.inl hn)
    have hm : Named name (middle.append m).modules d.id :=
      ⟨m, by simp [Graph.append], hid, by simp [Module.hasName, hnames]⟩
    exact ⟨consistent, fun hn => kept' (hkept (kept hn)),
      List.forall_mem_cons.mpr ⟨.inl (kept' hm), met⟩⟩

/-- The same for the build of an entry point. -/
theorem Recursion.nameReached {path : Path} {outcome : Graph × Except BundleError String}
    (h : Recursion p name spreadName g path outcome) (hc : Consistent name [] g.index g.modules) :
    Recursion p name nameReached g path outcome ∧
      ((∃ id, outcome.2 = .ok id) →
        Consistent name [] outcome.1.index outcome.1.modules) := by
  cases h with
  | finished run =>
    obtain ⟨run, hmet⟩ := run.nameReached hc (by simp)
    exact ⟨.finished run, fun _ => (hmet rfl).consistent⟩
  | failed run => exact ⟨.failed (run.nameReached hc (by simp)).1, by simp⟩

/-- After entry points that were added with success, nothing waits, whatever their names. -/
theorem Graph.Built.consistent {points : List (String × Path)} (h : Built p points g)
    (name : String) : Consistent name [] g.index g.modules := by
  induction h generalizing name with
  | nothing => exact ⟨Indexed.empty, by simp, by simp [Graph.empty], by simp [Graph.empty]⟩
  | @add _ g after a id path _ added ih =>
    have hrun := g.addEntry_recursion p a path
    rw [added] at hrun
    have hafter := (hrun.nameReached (ih a)).2 ⟨id, rfl⟩
    exact ⟨hafter.indexed, by simp, hafter.known,
      fun b m hm hmb d hd => (hafter.named b m hm hmb d hd).imp_right (by simp)⟩

end ModuleBundler
