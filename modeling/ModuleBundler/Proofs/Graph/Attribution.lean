import Mathlib.Data.List.Nodup
import ModuleBundler.Proofs.Graph.WalkInvariant

/-! The names of a module are those of the entry points that reach it. -/
namespace ModuleBundler
open scoped Classical

namespace Graph

variable {p : Project} {name id : String} {path : Path} {g after : Graph}

/-- What a module depends on has been built. -/
def Closed (ms : List Module) : Prop := ∀ m ∈ ms, ∀ d ∈ m.dependencies, Knows ms d.id

/-- A walk can start from a module that has been loaded under a new name. -/
theorem start_invariant {loaded : Module} (hi : g.Indexed) (hc : Closed g.modules)
    (hname : ∀ m ∈ g.modules, m.hasName name = false) (hold : ∀ m ∈ g.modules, p.Loaded m)
    (hnot : ¬ Knows g.modules loaded.id) (hnames : loaded.names = [name]) (hl : p.Loaded loaded) :
    Walk.Invariant p name loaded.id g.modules (.start g loaded) := by
  have hloaded : loaded.hasName name = true := by simp [Module.hasName, hnames]
  constructor
  case extending => exact .refl name g.modules
  case nodup =>
    rw [Walk.modules, List.map_append, List.nodup_append]
    refine ⟨hi.nodup, by simp [Walk.start], fun a ha b hb hab => hnot ?_⟩
    obtain ⟨m, hm, rfl⟩ := List.mem_map.mp ha
    exact ⟨m, hm, hab.trans (by simpa [Walk.start] using hb)⟩
  case indexed => exact hi
  case inProgress => simp [Walk.start, Knows, eq_comm]
  case names => simpa [Walk.start] using hnames
  case loaded =>
    intro m hm
    rcases List.mem_append.mp hm with hm | hm
    · exact hold m hm
    · obtain rfl : m = loaded := by simpa [Walk.start] using hm
      exact hl
  case ahead => simp [Walk.start]
  case known => exact fun m hm d hd => (hc m hm d hd).mono (List.subset_append_left _ _)
  case named => exact fun m hm hmn => absurd hmn (by simp [hname m hm])
  case framed =>
    intro f hf d hd
    obtain rfl := List.mem_singleton.mp hf
    exact .inl hd
  case entered => exact ⟨loaded, by simp [Walk.modules, Walk.start], rfl, hloaded⟩
  case reached =>
    rintro id ⟨m, hm, hid, hmn⟩
    rcases List.mem_append.mp hm with hm | hm
    · simp [hname m hm] at hmn
    · obtain rfl : m = loaded := by simpa [Walk.start] using hm
      exact hid ▸ .refl

/-- A module that has been built gets a new name with all that it reaches. -/
theorem spreadName_invariant (hi : g.Indexed) (hc : Closed g.modules)
    (hname : ∀ m ∈ g.modules, m.hasName name = false) (hold : ∀ m ∈ g.modules, p.Loaded m)
    (hid : Knows g.modules id) :
    Walk.Invariant p name id g.modules ⟨g.spreadName id name, [], []⟩ := by
  have hr := spreadName_renamed g id name
  have hnone (m : Module) (hm : m ∈ g.modules) (hmn : m.hasName name = true) : False := by
    simp [hname m hm] at hmn
  have hknown : Closed (g.spreadName id name).modules := by
    intro m hm d hd
    obtain ⟨m', hm', hmr⟩ := exists_of_renamed hr hm
    exact (knows_renamed hr).mpr (hc m' hm' d (hmr.dependencies_eq ▸ hd))
  have hall : Walk.modules ⟨g.spreadName id name, [], []⟩ = (g.spreadName id name).modules :=
    List.append_nil _
  constructor
  case extending => exact (Extends.refl name g.modules).renamed hr
  case nodup => rw [hall]; exact hi.spreadName.nodup
  case indexed => exact hi.spreadName
  case inProgress => simp [Knows]
  case names => simp
  case loaded =>
    rw [hall]
    intro m hm
    obtain ⟨m', hm', hmr⟩ := exists_of_renamed hr hm
    exact (hold m' hm').renamed hmr
  case ahead => simp
  case known => rw [hall]; exact hknown
  case named =>
    rw [hall]
    intro m hm hmn d hd
    rcases hi.spreadName_closed (fun m hm hmn => (hnone m hm hmn).elim) m hm hmn d hd with h | h
    · exact h
    · exact absurd (knows_spreadName.mp (hknown m hm d hd)) h
  case framed => simp
  case entered => rw [hall]; exact hi.named_spreadName hid
  case reached =>
    rw [hall]
    intro a ha
    rw [reaches_renamed hr]
    rcases hi.reaches_of_named_spreadName ha with ⟨m, hm, -, hmn⟩ | hra
    · exact (hnone m hm hmn).elim
    · exact hra

/-- Adding an entry point under a new name names what it reaches and builds what is missing. -/
theorem addEntry_invariant (hi : g.Indexed) (hc : Closed g.modules)
    (hname : ∀ m ∈ g.modules, m.hasName name = false) (hold : ∀ m ∈ g.modules, p.Loaded m)
    (h : g.addEntry p name path = (after, .ok id)) :
    id = p.idOf path ∧ Walk.Invariant p name id g.modules ⟨after, [], []⟩ := by
  unfold addEntry at h
  dsimp only at h
  split at h
  · next hhas =>
    simp only [Prod.mk.injEq, Except.ok.injEq] at h
    obtain ⟨rfl, rfl⟩ := h
    have hid : Knows g.modules (p.idOf path) := hi.has_iff.mp hhas
    exact ⟨rfl, spreadName_invariant (g := g.touch path) hi hc hname hold hid⟩
  · next hhas =>
    split at h
    · simp at h
    · next touched loaded hl =>
      obtain ⟨hid, -, hnames⟩ := Project.load_id hl
      split at h
      · next w hw =>
        simp only [Prod.mk.injEq, Except.ok.injEq] at h
        obtain ⟨rfl, rfl⟩ := h
        have hnot : ¬ Knows g.modules loaded.id := by
          rw [hid]
          exact fun hk => hhas (hi.has_iff.mpr hk)
        have hstart := start_invariant (g := { g.touch path with touched }) hi hc hname hold hnot
          hnames (Project.load_loaded hl)
        refine ⟨rfl, ?_⟩
        rw [← hid]
        exact Walk.finish_invariant hstart hw
      · simp at h

/-- Entry points that have been added to nothing, one after the other and each with success. -/
inductive Built (p : Project) : List (String × Path) → Graph → Prop
  | nothing : Built p [] .empty
  | add {points : List (String × Path)} {g after : Graph} {name id : String} {path : Path}
      (before : Built p points g) (added : g.addEntry p name path = (after, .ok id)) :
      Built p (points ++ [(name, path)]) after

/-- The names of the entry points that reach a module. -/
noncomputable def reachingNames (p : Project) (points : List (String × Path)) (ms : List Module)
    (id : String) : List String :=
  (points.filter fun point => Reaches ms (p.idOf point.2) id).map (·.1)

/-- What holds of a graph with the modules of several entry points. -/
structure Attributed (p : Project) (points : List (String × Path)) (g : Graph) : Prop where
  indexed : g.Indexed
  closed : Closed g.modules
  loaded : ∀ m ∈ g.modules, p.Loaded m
  entered : ∀ point ∈ points, Knows g.modules (p.idOf point.2)
  names : ∀ m ∈ g.modules, m.names = reachingNames p points g.modules m.id

theorem Attributed.nodup {points : List (String × Path)} (hg : Attributed p points g) :
    (g.modules.map (·.id)).Nodup := hg.indexed.nodup

theorem not_knows_of_mem_append {old new : List Module} {m : Module}
    (hn : ((old ++ new).map (·.id)).Nodup) (hm : m ∈ new) : ¬ Knows old m.id := by
  rintro ⟨k, hk, hid⟩
  rw [List.map_append, List.nodup_append] at hn
  exact hn.2.2 k.id (List.mem_map_of_mem hk) m.id (List.mem_map_of_mem hm) hid

/-- New modules do not change what the old ones reach. -/
theorem reaches_append_iff {old new : List Module} {a b : String}
    (hn : ((old ++ new).map (·.id)).Nodup) (hc : Closed old) (ha : Knows old a) :
    Reaches (old ++ new) a b ↔ Reaches old a b := by
  constructor
  · intro h
    induction h with
    | refl => exact .refl
    | tail _ hab ih =>
      obtain ⟨m, hm, rfl, hd⟩ := hab
      rcases List.mem_append.mp hm with hm | hm
      · exact ih.tail ⟨m, hm, rfl, hd⟩
      · exact absurd (ih.knows hc ha) (not_knows_of_mem_append hn hm)
  · exact fun h => h.mono (List.subset_append_left _ _)

/-- At the end of a walk the modules with its name are those that the entry point reaches. -/
theorem named_iff_reaches {before : List Module} {entry a : String}
    (h : Walk.Invariant p name entry before ⟨g, [], []⟩) :
    Named name g.modules a ↔ Reaches g.modules entry a := by
  have hn := h.indexed.nodup
  have hreached := h.reached
  have hentered := h.entered
  have hnamed := h.named
  simp only [Walk.modules, Walk.waiting_nil, List.append_nil] at hreached hentered hnamed
  refine ⟨hreached a, fun hr => ?_⟩
  induction hr with
  | refl => exact hentered
  | tail _ hab ih =>
    obtain ⟨m, hm, rfl, d, hd, rfl⟩ := hab
    obtain ⟨k, hk, hid, hkn⟩ := ih
    obtain rfl := eq_of_id_eq hn hk hm hid
    exact hnamed k hk hkn d hd

theorem reachingNames_append (points : List (String × Path)) (ms : List Module) (a : String) :
    reachingNames p (points ++ [(name, path)]) ms a =
      reachingNames p points ms a ++ if Reaches ms (p.idOf path) a then [name] else [] := by
  by_cases h : Reaches ms (p.idOf path) a <;> simp [reachingNames, List.filter_append, h]

theorem Renamed.names_eq {m n : Module} (h : Renamed name m n) (hm : m.hasName name = false) :
    n.names = m.names ++ if n.hasName name = true then [name] else [] := by
  rcases h with rfl | ⟨-, rfl⟩
  · simp [hm]
  · simp [Module.addName, Module.hasName]

theorem reachingNames_subset (points : List (String × Path)) (ms : List Module) (a : String) :
    reachingNames p points ms a ⊆ points.map (·.1) :=
  List.map_subset _ (List.filter_subset_self _)

theorem Attributed.lacks {points : List (String × Path)} (hg : Attributed p points g)
    (hname : name ∉ points.map (·.1)) : ∀ m ∈ g.modules, m.hasName name = false := by
  intro m hm
  simp only [Module.hasName, List.contains_eq_mem, decide_eq_false_iff_not]
  rw [hg.names m hm]
  exact fun hmem => hname (reachingNames_subset _ _ _ hmem)

/-- The modules that are there keep their places when an entry point is added. -/
theorem Attributed.extends {points : List (String × Path)} (hg : Attributed p points g)
    (hname : name ∉ points.map (·.1)) (h : g.addEntry p name path = (after, .ok id)) :
    id = p.idOf path ∧ Extends name g.modules after.modules := by
  obtain ⟨hid, hinv⟩ := addEntry_invariant hg.indexed hg.closed (hg.lacks hname) hg.loaded h
  exact ⟨hid, hinv.extending⟩

/-- An entry point with a name of its own leaves the names right. -/
theorem Attributed.add {points : List (String × Path)} (hg : Attributed p points g)
    (hname : name ∉ points.map (·.1)) (h : g.addEntry p name path = (after, .ok id)) :
    Attributed p (points ++ [(name, path)]) after := by
  have hlacks := hg.lacks hname
  obtain ⟨rfl, hinv⟩ := addEntry_invariant hg.indexed hg.closed hlacks hg.loaded h
  obtain ⟨old, new, hafter, hold, hnew⟩ := hinv.extending
  have hn := hinv.indexed.nodup
  have hclosed : Closed old := by
    intro m hm d hd
    obtain ⟨m', hm', hmr⟩ := exists_of_renamed hold hm
    exact (knows_renamed hold).mpr (hg.closed m' hm' d (hmr.dependencies_eq ▸ hd))
  rw [hafter] at hn
  have hreaches {a b : String} (ha : Knows g.modules a) :
      Reaches after.modules a b ↔ Reaches g.modules a b := by
    rw [hafter, reaches_append_iff hn hclosed ((knows_renamed hold).mpr ha),
      reaches_renamed hold]
  have hnamed (m : Module) (hm : m ∈ after.modules) :
      m.hasName name = true ↔ Reaches after.modules (p.idOf path) m.id := by
    rw [← named_iff_reaches hinv]
    refine ⟨fun hmn => ⟨m, hm, rfl, hmn⟩, ?_⟩
    rintro ⟨k, hk, hid, hkn⟩
    exact eq_of_id_eq hinv.indexed.nodup hk hm hid ▸ hkn
  have hearlier {a : String} (ha : Knows g.modules a) :
      reachingNames p points after.modules a = reachingNames p points g.modules a := by
    unfold reachingNames
    congr 1
    refine List.filter_congr fun point hpoint => ?_
    simp only [decide_eq_decide]
    exact hreaches (hg.entered point hpoint)
  constructor
  case indexed => exact hinv.indexed
  case closed => simpa [Closed, Walk.modules] using hinv.known
  case loaded => simpa [Walk.modules] using hinv.loaded
  case entered =>
    intro point hpoint
    rcases List.mem_append.mp hpoint with hpoint | hpoint
    · rw [hafter]
      exact ((knows_renamed hold).mpr (hg.entered point hpoint)).mono
        (List.subset_append_left _ _)
    · obtain rfl := List.mem_singleton.mp hpoint
      simpa [Walk.modules] using hinv.entered.knows
  case names =>
    intro m hm
    rw [reachingNames_append]
    simp only [← hnamed m hm]
    rcases List.mem_append.mp (hafter ▸ hm) with hm' | hm'
    · obtain ⟨k, hk, hkr⟩ := exists_of_renamed hold hm'
      rw [hkr.names_eq (hlacks k hk), hg.names k hk, hkr.id_eq, hearlier ⟨k, hk, rfl⟩]
    · have hnot := (knows_renamed hold).not.mp (not_knows_of_mem_append hn hm')
      have hempty : reachingNames p points after.modules m.id = [] := by
        simp only [reachingNames, List.map_eq_nil_iff, List.filter_eq_nil_iff,
          decide_eq_true_eq]
        intro point hpoint hr
        have hentered := hg.entered point hpoint
        exact hnot (((hreaches hentered).mp hr).knows hg.closed hentered)
      have hmn : m.hasName name = true := by simp [Module.hasName, hnew m hm']
      rw [hempty, if_pos hmn, hnew m hm', List.nil_append]

/-- Entry points with names of their own leave the names right. -/
theorem Built.attributed {points : List (String × Path)} (h : Built p points g)
    (hn : (points.map (·.1)).Nodup) : Attributed p points g := by
  induction h with
  | nothing =>
    constructor
    case indexed => exact .empty
    all_goals simp [Graph.empty, Closed]
  | add before added ih =>
    rw [List.map_append, List.nodup_append] at hn
    refine (ih hn.1).add (fun hmem => ?_) added
    exact hn.2.2 _ hmem _ (by simp) rfl

/-- After any entry points with names of their own, each built with success: no id is used
twice, the index leads from the id of each module to its place and from no other id anywhere,
whatever a module depends on has been built, and the names of a module are those of the entry
points from which dependencies lead to it, each once and in their order. -/
theorem Built.names_eq_reachingNames {points : List (String × Path)} (h : Built p points g)
    (hn : (points.map (·.1)).Nodup) :
    (g.modules.map (·.id)).Nodup ∧
    (∀ id i, g.position? id = some i ↔ ∃ m, g.modules[i]? = some m ∧ m.id = id) ∧
    (∀ m ∈ g.modules, ∀ d ∈ m.dependencies, ∃ k ∈ g.modules, k.id = d.id) ∧
    (∀ m ∈ g.modules, m.names = reachingNames p points g.modules m.id) ∧
    (∀ m ∈ g.modules, m.names.Nodup) := by
  have hg := h.attributed hn
  refine ⟨hg.nodup, hg.indexed, hg.closed, hg.names, ?_⟩
  intro m hm
  rw [hg.names m hm]
  exact hn.sublist (List.filter_sublist.map _)

/-- Two modules that depend on each other. -/
def pair : Project where
  context := ⟨"/"⟩
  resolver :=
    { tree := ⟨[(["a.js"], .file (some "require('./b')")),
        (["b.js"], .file (some "require('./a')"))], []⟩
      extensions := [".js"]
      packageMain := fun _ => .ok none }
  rules := []

theorem Built.names_of_pair : ∃ g, Built pair [("m", ⟨"/a.js"⟩), ("n", ⟨"/b.js"⟩)] g ∧
    ["m", "n"].Nodup ∧ g.modules.length = 2 ∧
    ∀ m ∈ g.modules, m.names =
      reachingNames pair [("m", ⟨"/a.js"⟩), ("n", ⟨"/b.js"⟩)] g.modules m.id := by
  let first := Graph.empty.addEntry pair "m" ⟨"/a.js"⟩
  let second := first.1.addEntry pair "n" ⟨"/b.js"⟩
  have hfirst : first.2 = .ok "./a.js" := by decide +kernel
  have hsecond : second.2 = .ok "./b.js" := by decide +kernel
  have hbuilt : Built pair [("m", ⟨"/a.js"⟩), ("n", ⟨"/b.js"⟩)] second.1 :=
    (Built.nothing.add (Prod.ext rfl hfirst)).add (Prod.ext rfl hsecond)
  have hn : ["m", "n"].Nodup := by decide
  exact ⟨second.1, hbuilt, hn, by decide +kernel, (names_eq_reachingNames hbuilt hn).2.2.2.1⟩

end Graph
end ModuleBundler
