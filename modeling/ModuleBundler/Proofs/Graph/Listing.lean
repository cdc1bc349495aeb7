import ModuleBundler.Proofs.Graph.Log
import ModuleBundler.Proofs.Graph.Order
import ModuleBundler.Proofs.Path.Relative

/-! The files that were looked at when all went well: those of the modules, and no others. -/
namespace ModuleBundler
open ModuleBundler.Graph

/-- A file that can be told by the name of the module in it. -/
structure Project.Finds (p : Project) (path : Path) : Prop where
  absolute : path.isAbsolute = true
  straight : p.context.isAbsolute = true → path.Straight

namespace Project

variable {p : Project} {name : String} {path importer q : Path} {touched after : PathSet}
  {m : Module}

theorem Finds.beq_of_idOf (hp : p.Finds path) (hq : p.Finds q) (h : p.idOf path = p.idOf q) :
    (path == q) = true := by
  rw [Path.beq_iff]
  exact Path.components_of_moduleId hp.absolute hq.absolute
    (fun hc => ⟨hp.straight hc, hq.straight hc⟩) h

theorem isAbsolute_ofLocation (l : Location) : (Path.ofLocation l).isAbsolute = true := by
  simp [Path.isAbsolute, Path.ofLocation]

theorem finds_of_resolve {specifier : String} (h : p.resolver.resolve specifier importer = .ok path)
    (ha : importer.isAbsolute = true) : p.Finds path := by
  obtain ⟨l, -, rfl, hs⟩ := Resolver.exists_of_resolve h
  exact ⟨isAbsolute_ofLocation l, fun _ => hs ha⟩

theorem finds_of_resolveEntry {entry : Path}
    (h : p.resolver.resolveEntry p.context entry = .ok path) : p.Finds path := by
  obtain ⟨l, -, rfl, hs⟩ := Resolver.exists_of_resolveEntry h
  exact ⟨isAbsolute_ofLocation l, hs⟩

/-- The files that are looked at for requests are those of the dependencies. -/
theorem answer_files {requests : List Request} {ds : List Dependency}
    (h : p.answer importer touched requests = (after, .ok ds)) (ha : importer.isAbsolute = true) :
    (∀ q, after.contains q = true ↔ touched.contains q = true ∨ ∃ d ∈ ds, (q == d.path) = true) ∧
      ∀ d ∈ ds, p.Finds d.path := by
  induction requests generalizing touched after ds with
  | nil =>
    cases h
    simp
  | cons request requests ih =>
    unfold answer at h
    split at h
    · cases h
    next path hresolve =>
    split at h
    · next hrest =>
      cases h
      obtain ⟨hfiles, hfinds⟩ := ih hrest
      refine ⟨fun q => ?_, List.forall_mem_cons.mpr ⟨finds_of_resolve hresolve ha, hfinds⟩⟩
      rw [hfiles q, PathSet.contains_insert, Bool.or_eq_true, List.exists_mem_cons_iff]
      grind
    · next hne => exact absurd h (hne _ _)

theorem load_files (h : p.load name path touched = (after, .ok m)) (ha : path.isAbsolute = true) :
    (∀ q, after.contains q = true ↔
      touched.contains q = true ∨ ∃ d ∈ m.dependencies, (q == d.path) = true) ∧
      ∀ d ∈ m.dependencies, p.Finds d.path := by
  unfold load at h
  split at h
  · cases h
  split at h
  · cases h
  next hanswer =>
  split at h
  · cases h
  cases h
  exact answer_files hanswer ha

end Project

/-- The files that a module has to do with can be told by names, and were looked at. -/
structure Module.Listed (p : Project) (files : PathSet) (m : Module) : Prop where
  file : p.Finds m.path ∧ files.contains m.path = true
  dependencies : ∀ d ∈ m.dependencies, p.Finds d.path ∧ files.contains d.path = true

namespace Module.Listed

variable {p : Project} {files after : PathSet} {m : Module} {ms ns : List Module}

theorem mono (h : m.Listed p files) (hf : files.Within after) : m.Listed p after :=
  ⟨h.file.imp_right (hf _), fun d hd => (h.dependencies d hd).imp_right (hf _)⟩

/-- The names of entry points make no difference. -/
theorem of_bare (hb : Graph.bare ns = Graph.bare ms) (h : ∀ m ∈ ms, m.Listed p files) :
    ∀ n ∈ ns, n.Listed p files := by
  intro n hn
  have hmem : n.bare ∈ Graph.bare ms := hb ▸ List.mem_map_of_mem hn
  obtain ⟨m, hm, hmn⟩ := List.mem_map.mp hmem
  have hpath : m.bare.path = n.bare.path := congrArg Module.path hmn
  have hds : m.bare.dependencies = n.bare.dependencies := congrArg Module.dependencies hmn
  change m.path = n.path at hpath
  change m.dependencies = n.dependencies at hds
  obtain ⟨hfile, hdependencies⟩ := h m hm
  exact ⟨hpath ▸ hfile, hds ▸ hdependencies⟩

end Module.Listed

section Visits

variable {p : Project} {name : String} {waiting : List String} {g after : Graph}
  {ds : List Dependency} {failure : Option BundleError} {path q : Path} {id : String}

/-- Whether a recursive build fails or not, the files of all modules have been looked at. -/
theorem Visits.listed (h : Visits p name spreadName waiting g ds after failure)
    (hds : ∀ d ∈ ds, p.Finds d.path ∧ g.touched.contains d.path = true)
    (hg : ∀ m ∈ g.modules, m.Listed p g.touched) :
    g.touched.Within after.touched ∧ ∀ m ∈ after.modules, m.Listed p after.touched := by
  induction h with
  | nothing => exact ⟨.refl _, hg⟩
  | built known _ ih =>
    exact ih (List.forall_mem_cons.mp hds).2 (.of_bare bare_spreadName hg)
  | inProgress unknown waits _ ih => exact ih (List.forall_mem_cons.mp hds).2 hg
  | @unloaded _ g d _ touched _ unknown new load =>
    have hwithin := (p.load_touched name d.path g.touched).1
    rw [load] at hwithin
    exact ⟨hwithin, fun m hm => (hg m hm).mono hwithin⟩
  | @unfinished _ g _ d _ touched m _ unknown new load _ ih =>
    obtain ⟨hwithin, hlisted⟩ := p.load_touched name d.path g.touched
    rw [load] at hwithin hlisted
    obtain ⟨hd, -⟩ := hds d List.mem_cons_self
    obtain ⟨-, hfinds⟩ := Project.load_files load hd.absolute
    obtain ⟨hafter, hall⟩ := ih (fun k hk => ⟨hfinds k hk, hlisted m rfl k hk⟩)
      fun k hk => (hg k hk).mono hwithin
    exact ⟨hwithin.trans hafter, hall⟩
  | @loaded _ g middle _ d _ touched m _ unknown new load _ _ ihInner ihRest =>
    obtain ⟨hwithin, hlisted⟩ := p.load_touched name d.path g.touched
    rw [load] at hwithin hlisted
    obtain ⟨⟨hd, htouched⟩, hothers⟩ := List.forall_mem_cons.mp hds
    obtain ⟨-, hfinds⟩ := Project.load_files load hd.absolute
    have hm (k : Dependency) (hk : k ∈ m.dependencies) :
        p.Finds k.path ∧ touched.contains k.path = true := ⟨hfinds k hk, hlisted m rfl k hk⟩
    obtain ⟨hmiddle, hall⟩ := ihInner hm fun k hk => (hg k hk).mono hwithin
    have hpath : m.path = d.path := (Project.load_id load).2.1
    have hnew : m.Listed p middle.touched :=
      ⟨hpath ▸ ⟨hd, hmiddle _ (hwithin _ htouched)⟩, fun k hk => (hm k hk).imp_right (hmiddle _)⟩
    have hkept := hwithin.trans hmiddle
    obtain ⟨hafter, hall⟩ := ihRest (fun k hk => (hothers k hk).imp_right (hkept _))
      (List.forall_mem_append.mpr ⟨hall, List.forall_mem_singleton.mpr hnew⟩)
    exact ⟨hkept.trans hafter, hall⟩

/-- A file is that of a dependency of a module. -/
def DependedOn (ms : List Module) (q : Path) : Prop :=
  ∃ m ∈ ms, ∃ d ∈ m.dependencies, (q == d.path) = true

/-- It does not matter which modules are there besides, and which names they have. -/
theorem DependedOn.of_bare {ms ns : List Module} (h : DependedOn ms q)
    (hb : ∀ m ∈ bare ms, m ∈ bare ns) : DependedOn ns q := by
  obtain ⟨m, hm, d, hd, hqd⟩ := h
  obtain ⟨n, hn, hnm⟩ := List.mem_map.mp (hb m.bare (List.mem_map_of_mem hm))
  have hds : n.bare.dependencies = m.bare.dependencies := congrArg Module.dependencies hnm
  change n.dependencies = m.dependencies at hds
  exact ⟨n, hn, d, hds ▸ hd, hqd⟩

/-- A recursive build that succeeds looks at no other files than those of dependencies. -/
theorem Visits.dependedOn (h : Visits p name spreadName waiting g ds after failure)
    (hs : g.Sound) (hf : failure = none)
    (hds : ∀ d ∈ ds, d.id = p.idOf d.path ∧ p.Finds d.path)
    (hq : after.touched.contains q = true) :
    g.touched.contains q = true ∨ DependedOn after.modules q := by
  induction h with
  | nothing => exact .inl hq
  | built known _ ih => exact ih hs.spreadName hf (List.forall_mem_cons.mp hds).2 hq
  | inProgress unknown waits _ ih => exact ih hs hf (List.forall_mem_cons.mp hds).2 hq
  | unloaded | unfinished => cases hf
  | @loaded _ g middle after d _ touched m _ unknown new load inner rest ihInner ihRest =>
    obtain ⟨⟨-, hd⟩, hothers⟩ := List.forall_mem_cons.mp hds
    obtain ⟨hfiles, hfinds⟩ := Project.load_files load hd.absolute
    have hsound : (middle.append m).Sound := (inner.sound hs).append
    obtain ⟨more, unfinished, hgrown⟩ := rest.grown hsound fun k hk => (hothers k hk).1
    -- the modules that are there before the rest is looked at stay there
    have hkept (hm : DependedOn (middle.append m).modules q) : DependedOn after.modules q :=
      hm.of_bare fun k hk => hgrown.modules ▸ List.mem_append_left _ hk
    rcases ihRest hsound hf hothers hq with hq | hq
    · rcases ihInner hs rfl (fun k hk => ⟨(Project.load_loaded load).labels k hk, hfinds k hk⟩) hq
        with hq | ⟨k, hk, hkq⟩
      · rcases (hfiles q).mp hq with hq | hq
        · exact .inl hq
        · exact .inr (hkept ⟨m, by simp [Graph.append], hq⟩)
      · exact .inr (hkept ⟨k, List.mem_append_left _ hk, hkq⟩)
    · exact .inr hq

end Visits

namespace Graph

variable {p : Project} {points : List (String × Path)} {g : Graph}

/-- After entry points that were added with success, the files that were looked at are those of
the entry points and of dependencies, and the files of all modules are among them. -/
structure Listing (p : Project) (points : List (String × Path)) (g : Graph) : Prop where
  listed : ∀ m ∈ g.modules, m.Listed p g.touched
  entered : ∀ point ∈ points, g.touched.contains point.2 = true
  others : ∀ q, g.touched.contains q = true →
    (∃ point ∈ points, (q == point.2) = true) ∨ DependedOn g.modules q

theorem Built.listing (h : Built p points g) (hp : ∀ point ∈ points, p.Finds point.2) :
    Listing p points g := by
  induction h with
  | nothing => exact ⟨by simp [Graph.empty], by simp, by simp [Graph.empty]⟩
  | @add points g after name id path before added ih =>
    obtain ⟨hpoints, hpath⟩ := List.forall_mem_append.mp hp
    have hpath : p.Finds path := hpath _ List.mem_cons_self
    have hg := ih hpoints
    have hs := (before.consistent name).graph.sound
    have hrun := g.addEntry_recursion p name path
    rw [added] at hrun
    cases hrun with
    | finished run =>
      have htouch := g.touched.within_insert path
      have hself := g.touched.contains_insert_self path
      obtain ⟨more, unfinished, hgrown⟩ := run.grown hs (by simp)
      obtain ⟨hafter, hmodules⟩ := run.listed (by simpa using ⟨hpath, hself⟩)
        fun m hm => (hg.listed m hm).mono htouch
      constructor
      case listed => exact hmodules
      case entered =>
        refine List.forall_mem_append.mpr ⟨fun point hm => ?_, by simpa using hafter _ hself⟩
        exact hafter _ (htouch _ (hg.entered point hm))
      case others =>
        intro q hq
        rcases run.dependedOn hs rfl (by simpa using hpath) hq with hq | hq
        · rw [touch, PathSet.contains_insert, Bool.or_eq_true] at hq
          rcases hq with hq | hq
          · exact .inl ⟨(name, path), by simp, hq⟩
          rcases hg.others q hq with ⟨point, hm, hqp⟩ | hm
          · exact .inl ⟨point, List.mem_append_left _ hm, hqp⟩
          · exact .inr (hm.of_bare fun k hk => hgrown.modules ▸ List.mem_append_left _ hk)
        · exact .inr hq

end Graph
end ModuleBundler
