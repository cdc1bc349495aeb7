import Mathlib.Data.List.Nodup
import ModuleBundler.Proofs.FileTree.Canonical
import ModuleBundler.Proofs.Graph.Attribution
import ModuleBundler.Proofs.Graph.Rounds

/-! What is loaded in a sequence of calls: each module once. -/
namespace ModuleBundler
open ModuleBundler.Graph

namespace Walk

/-- The ids of all modules that have been built or wait. -/
def met (w : Walk) : List String := w.graph.modules.map (·.id) ++ waitingIds w.stack

/-- Nothing has been loaded twice, and what lies ahead has the ids of its paths. -/
structure Fresh (p : Project) (w : Walk) : Prop where
  indexed : w.graph.Indexed
  tracks : Tracks w
  nodup : w.met.Nodup
  labels : ∀ f ∈ w.stack, ∀ d ∈ f.ahead, d.id = p.idOf d.path

variable {p : Project} {name : String} {w w' : Walk} {path : Option Path} {loads : List Path}
  {outcome : Graph × Option BundleError} {d : Dependency}

theorem Fresh.not_mem_met (h : Fresh p w) (unknown : w.graph.has d.id = false)
    (new : d.id ∉ w.inProgress) : d.id ∉ w.met := by
  intro hmem
  rcases List.mem_append.mp hmem with hmem | hmem
  · rw [h.indexed.has_iff.mpr (knows_iff_mem_ids.mpr hmem)] at unknown
    cases unknown
  · exact new ((h.tracks.mem_iff d.id).mpr hmem)

/-- A round meets the module of the file that it loads, and forgets none. -/
theorem Round.met (h : Round p name w path w') :
    w'.met.Perm (path.toList.map p.idOf ++ w.met) := by
  cases h with
  | built => simp [Walk.met, Walk.pop, Graph.append]
  | known known => simp [Walk.met, spreadName_ids]
  | waits unknown waits => exact .rfl
  | loaded unknown new load =>
    simp only [Walk.met, Walk.push, waitingIds_cons, Option.toList_some, List.map_cons,
      List.map_nil, List.singleton_append, (Project.load_id load).1]
    exact List.perm_middle

theorem Round.fresh (h : Round p name w path w') (hw : Fresh p w) : Fresh p w' := by
  have hmet := h.met
  obtain ⟨hi, ht, hn, hl⟩ := id hw
  constructor
  case indexed =>
    cases h with
    | @built g m stack inProgress =>
      refine hi.append fun hk => ?_
      exact (List.nodup_append.mp hn).2.2 _ (knows_iff_mem_ids.mp hk) _ List.mem_cons_self rfl
    | known => exact hi.spreadName
    | waits | loaded => exact hi
  case tracks =>
    cases h with
    | built => exact ht.pop
    | known | waits => exact ⟨ht.mem_iff, ht.nodup⟩
    | @loaded g m loaded d ahead stack inProgress touched unknown new load =>
      have hid := hl ⟨m, d :: ahead⟩ List.mem_cons_self d List.mem_cons_self
      refine Tracks.push ⟨ht.mem_iff, ht.nodup⟩ ?_
      rw [(Project.load_id load).1, ← hid]
      exact new
  case nodup =>
    rw [hmet.nodup_iff]
    cases h with
    | built | known | waits => exact hn
    | @loaded g m loaded d ahead stack inProgress touched unknown new load =>
      have hid := hl ⟨m, d :: ahead⟩ List.mem_cons_self d List.mem_cons_self
      refine List.nodup_cons.mpr ⟨?_, hn⟩
      rw [← hid]
      exact hw.not_mem_met unknown new
  case labels =>
    cases h with
    | built => exact fun f hf => hl f (List.mem_cons_of_mem _ hf)
    | known | waits =>
      refine List.forall_mem_cons.mpr ⟨?_, fun f hf => hl f (List.mem_cons_of_mem _ hf)⟩
      exact fun d hd => hl _ List.mem_cons_self d (List.mem_cons_of_mem _ hd)
    | loaded unknown new load =>
      refine List.forall_mem_cons.mpr ⟨(Project.load_loaded load).labels, ?_⟩
      refine List.forall_mem_cons.mpr ⟨?_, fun f hf => hl f (List.mem_cons_of_mem _ hf)⟩
      exact fun d hd => hl _ List.mem_cons_self d (List.mem_cons_of_mem _ hd)

/-- A walk that succeeds ends with the modules that it had met and those that it loaded, which are
no others. -/
theorem Rounds.met (h : Rounds p name w loads outcome) (hs : outcome.2 = none)
    (hw : Fresh p w) : outcome.1.Indexed ∧
      (outcome.1.modules.map (·.id)).Perm (loads.map p.idOf ++ w.met) := by
  induction h with
  | finished => exact ⟨hw.indexed, .of_eq (List.append_nil _).symm⟩
  | failed => cases hs
  | next first _ ih =>
    obtain ⟨hi, hp⟩ := ih hs (first.fresh hw)
    refine ⟨hi, hp.trans ((first.met.append_left _).trans ?_)⟩
    rw [List.map_append, ← List.append_assoc]
    exact List.perm_append_comm.append_right _

end Walk

namespace Project

variable {p : Project} {name : String} {path importer : Path} {touched after : PathSet}
  {m : Module}

/-- An absolute path that leads to itself, if it leads anywhere. -/
def Final (p : Project) (path : Path) : Prop :=
  path.isAbsolute = true ∧
    ∀ found, p.resolver.tree.find path = .ok found → p.resolver.tree.canonical path = .ok path

theorem final_of_canonical (h : p.resolver.tree.canonical path = .ok path) : p.Final path := by
  refine ⟨?_, fun _ _ => h⟩
  unfold FileTree.canonical at h
  cases hf : p.resolver.tree.find path with
  | error e =>
    rw [hf] at h
    cases h
  | ok found =>
    rw [hf] at h
    rw [← Except.ok.inj h]
    simp [Path.isAbsolute, Path.ofLocation]

theorem answer_final {requests : List Request} {ds : List Dependency}
    (h : p.answer importer touched requests = (after, .ok ds)) (ha : importer.isAbsolute = true) :
    ∀ d ∈ ds, p.Final d.path := by
  induction requests generalizing touched after ds with
  | nil =>
    cases h
    simp
  | cons request requests ih =>
    unfold answer at h
    split at h
    · cases h
    next path hresolve =>
    split at h
    · next hrest =>
      cases h
      refine List.forall_mem_cons.mpr ⟨⟨?_, fun found hf => ?_⟩, ih hrest⟩
      · obtain ⟨l, -, rfl, -⟩ := Resolver.exists_of_resolve hresolve
        simp [Path.isAbsolute, Path.ofLocation]
      · exact Resolver.canonical_of_resolve hresolve ha hf
    · next hne => exact absurd h (hne _ _)

theorem load_final (h : p.load name path touched = (after, .ok m)) (ha : path.isAbsolute = true) :
    ∀ d ∈ m.dependencies, p.Final d.path := by
  unfold load at h
  split at h
  · cases h
  split at h
  · cases h
  next hanswer =>
  split at h
  · cases h
  cases h
  exact answer_final hanswer ha

/-- What is loaded has been found. -/
theorem canonical_of_load (h : p.load name path touched = (after, .ok m)) (hp : p.Final path) :
    p.resolver.tree.canonical path = .ok path := by
  unfold load at h
  split at h
  · cases h
  next source analysis hread =>
  unfold read at hread
  obtain ⟨raw, hraw, -⟩ := Except.bind_eq_ok.mp hread
  cases hf : p.resolver.tree.find path with
  | ok found => exact hp.2 found hf
  | error e =>
    rw [FileTree.readText, hf] at hraw
    cases hraw

/-- The id of a module only depends on the components of its path. -/
theorem idOf_congr {q : Path} (h : (path == q) = true) : p.idOf path = p.idOf q := by
  simp only [idOf, Path.moduleId, Path.relativeTo, (Path.beq_iff _ _).mp h]

end Project

/-- Each path that a walk loads leads to itself, if those that lie ahead do. -/
theorem Walk.Rounds.canonical {p : Project} {name : String} {w : Walk} {loads : List Path}
    {outcome : Graph × Option BundleError} (h : Rounds p name w loads outcome)
    (hs : outcome.2 = none) (hw : ∀ f ∈ w.stack, ∀ d ∈ f.ahead, p.Final d.path) :
    ∀ path ∈ loads, p.resolver.tree.canonical path = .ok path := by
  induction h with
  | finished => simp
  | failed => cases hs
  | next first _ ih =>
    cases first with
    | built => exact ih hs fun f hf => hw f (List.mem_cons_of_mem _ hf)
    | known | waits =>
      refine ih hs (List.forall_mem_cons.mpr ⟨?_, fun f hf => hw f (List.mem_cons_of_mem _ hf)⟩)
      exact fun d hd => hw _ List.mem_cons_self d (List.mem_cons_of_mem _ hd)
    | @loaded _ m _ d ahead _ _ _ _ _ load =>
      have hd := hw ⟨m, d :: ahead⟩ List.mem_cons_self d List.mem_cons_self
      refine List.forall_mem_cons.mpr ⟨Project.canonical_of_load load hd, ih hs ?_⟩
      refine List.forall_mem_cons.mpr ⟨Project.load_final load hd.1, ?_⟩
      refine List.forall_mem_cons.mpr ⟨?_, fun f hf => hw f (List.mem_cons_of_mem _ hf)⟩
      exact fun d hd => hw _ List.mem_cons_self d (List.mem_cons_of_mem _ hd)

namespace Graph

variable {p : Project} {g after : Graph} {name id : String} {path : Path} {loads : List Path}
  {points : List (String × Path)}

/-- Calls that all succeed, one after the other, with the files that are loaded in them. -/
inductive Calls (p : Project) : List (String × Path) → List Path → Graph → Prop
  | nothing : Calls p [] [] .empty
  | next {points : List (String × Path)} {loads more : List Path} {g after : Graph}
      {name id : String} {path : Path} (before : Calls p points loads g)
      (call : Call p g name path more (after, .ok id)) :
      Calls p (points ++ [(name, path)]) (loads ++ more) after

theorem Calls.next_addEntryLogged (before : Calls p points loads g)
    (h : (g.addEntryLogged p name path).2.2 = .ok id) :
    Calls p (points ++ [(name, path)]) (loads ++ (g.addEntryLogged p name path).1)
      (g.addEntryLogged p name path).2.1 := by
  have call := call_addEntryLogged p g name path
  rw [← Prod.eta (g.addEntryLogged p name path).2, h] at call
  exact before.next call

/-- A call that succeeds adds the modules of the files that it loads, which are new. -/
theorem Call.met (h : Call p g name path loads (after, .ok id)) (hi : g.Indexed) :
    after.Indexed ∧
      (after.modules.map (·.id)).Perm (loads.map p.idOf ++ g.modules.map (·.id)) := by
  cases h with
  | known known => exact ⟨Indexed.spreadName hi, .of_eq (spreadName_ids ..)⟩
  | @finished touched m loads _ unknown load rounds =>
    have hid : m.id = p.idOf path := (Project.load_id load).1
    have hmet : (Walk.start { g.touch path with touched } m).met
        = g.modules.map (·.id) ++ [p.idOf path] := by
      rw [← hid]
      rfl
    have hfresh : Walk.Fresh p (.start { g.touch path with touched } m) := by
      constructor
      case indexed => exact hi
      case tracks => exact .start _ m
      case nodup =>
        rw [hmet, List.nodup_append_comm, List.singleton_append, List.nodup_cons]
        refine ⟨fun hmem => ?_, hi.nodup⟩
        have hknown : (g.touch path).has (p.idOf path) = true :=
          Indexed.has_iff (g := g) hi |>.mpr (knows_iff_mem_ids.mpr hmem)
        rw [hknown] at unknown
        cases unknown
      case labels =>
        intro f hf
        obtain rfl := List.mem_singleton.mp hf
        exact (Project.load_loaded load).labels
    obtain ⟨hindexed, hperm⟩ := rounds.met rfl hfresh
    rw [hmet, ← List.append_assoc] at hperm
    refine ⟨hindexed, hperm.trans ?_⟩
    rw [List.map_cons, List.cons_append]
    exact List.perm_append_singleton _ _

/-- In calls that succeed, the modules that are built are those of the files that are loaded. -/
theorem Calls.met (h : Calls p points loads g) :
    g.Indexed ∧ (g.modules.map (·.id)).Perm (loads.map p.idOf) := by
  induction h with
  | nothing => exact ⟨.empty, .nil⟩
  | next before call ih =>
    obtain ⟨hi, hp⟩ := ih
    obtain ⟨hindexed, hperm⟩ := call.met hi
    refine ⟨hindexed, hperm.trans ((hp.append_left _).trans ?_)⟩
    rw [List.map_append]
    exact List.perm_append_comm

theorem Call.canonical (h : Call p g name path loads (after, .ok id))
    (hp : p.resolver.tree.canonical path = .ok path) :
    ∀ q ∈ loads, p.resolver.tree.canonical q = .ok q := by
  cases h with
  | known => simp
  | finished unknown load rounds =>
    refine List.forall_mem_cons.mpr ⟨hp, rounds.canonical rfl fun f hf => ?_⟩
    obtain rfl := List.mem_singleton.mp hf
    exact Project.load_final load (Project.final_of_canonical hp).1

theorem Calls.canonical (h : Calls p points loads g)
    (hp : ∀ point ∈ points, p.resolver.tree.canonical point.2 = .ok point.2) :
    ∀ q ∈ loads, p.resolver.tree.canonical q = .ok q := by
  induction h with
  | nothing => simp
  | next before call ih =>
    obtain ⟨hpoints, hpoint⟩ := List.forall_mem_append.mp hp
    exact List.forall_mem_append.mpr
      ⟨ih hpoints, call.canonical (hpoint _ List.mem_cons_self)⟩

/-- A file and a link to it. -/
def linked : Project where
  context := ⟨"/"⟩
  resolver := { tree := ⟨[(["a.js"], .file (some "")), (["link.js"], .link ⟨"a.js"⟩)], []⟩
                extensions := [".js"]
                packageMain := fun _ => .ok none }
  rules := []

end Graph
end ModuleBundler
