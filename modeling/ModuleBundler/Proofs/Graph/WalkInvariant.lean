import ModuleBundler.Graph.Walk
import ModuleBundler.Proofs.Graph.Spread

/-! What every step of a walk keeps: ids are used once, the index says where modules stand, and what
is in progress is what waits; what is built or waits is reached from the entry point if it has its
name, and whatever such a module depends on has the name too or has still to be looked at. -/
namespace ModuleBundler
open ModuleBundler.Graph

/-- The second list is the first one with a new name here and there, and modules behind it that
have no other name. -/
def Extends (name : String) (ms ns : List Module) : Prop :=
  ∃ old new, ns = old ++ new ∧ List.Forall₂ (Renamed name) ms old ∧ ∀ m ∈ new, m.names = [name]

namespace Extends

variable {name : String} {ms ns ks : List Module} {m : Module}

theorem refl (name : String) (ms : List Module) : Extends name ms ms :=
  ⟨ms, [], by simp, renamed_refl ms, by simp⟩

theorem append (h : Extends name ms ns) (hm : m.names = [name]) :
    Extends name ms (ns ++ [m]) := by
  obtain ⟨old, new, rfl, ho, hn⟩ := h
  refine ⟨old, new ++ [m], by simp, ho, fun k hk => ?_⟩
  rcases List.mem_append.mp hk with hk | hk
  · exact hn k hk
  · rw [List.mem_singleton.mp hk]
    exact hm

theorem renamed (h : Extends name ms ns) (hk : List.Forall₂ (Renamed name) ns ks) :
    Extends name ms ks := by
  obtain ⟨old, new, rfl, ho, hn⟩ := h
  have hold : List.Forall₂ (Renamed name) old (ks.take old.length) := by
    simpa using List.forall₂_take old.length hk
  have hnew : List.Forall₂ (Renamed name) new (ks.drop old.length) := by
    simpa using List.forall₂_drop old.length hk
  refine ⟨_, _, (List.take_append_drop old.length ks).symm, renamed_trans ho hold, ?_⟩
  intro k hk
  obtain ⟨m, hm, hr⟩ := exists_of_renamed hnew hk
  rcases hr with rfl | ⟨hl, -⟩
  · exact hn k hm
  · simp [Module.hasName, hn m hm] at hl

end Extends

/-- The module is what its file makes of it, whatever entry points reach it: each of its requests
has been answered by a dependency, whose id stands in the text. -/
structure Project.Loaded (p : Project) (m : Module) : Prop where
  id_eq : m.id = p.idOf m.path
  labels : ∀ d ∈ m.dependencies, d.id = p.idOf d.path
  written : ∃ source analysis, p.read m.path = .ok (source, analysis) ∧
    m.dependencies.length = analysis.requests.length ∧
    Edit.apply (analysis.edits (m.dependencies.map (·.id))) source = .ok m.source

namespace Project

variable {p : Project} {name : String} {path importer : Path} {touched after : PathSet}

/-- Every request gets a dependency, whose id its path gives it. -/
theorem answer_ok {requests : List Request} {ds : List Dependency}
    (h : p.answer importer touched requests = (after, .ok ds)) :
    ds.length = requests.length ∧ ∀ d ∈ ds, d.id = p.idOf d.path := by
  induction requests generalizing touched after ds with
  | nil =>
    simp only [answer, Prod.mk.injEq, Except.ok.injEq] at h
    simp [h.2.symm]
  | cons request requests ih =>
    unfold answer at h
    split at h
    · simp at h
    · split at h
      · next hrest =>
        simp only [Prod.mk.injEq, Except.ok.injEq] at h
        obtain ⟨hlength, hlabels⟩ := ih hrest
        rw [← h.2]
        refine ⟨by simp [hlength], fun d hd => ?_⟩
        rcases List.mem_cons.mp hd with rfl | hd
        · rfl
        · exact hlabels d hd
      · next hne => exact absurd h (hne _ _)

theorem load_loaded {m : Module} (h : p.load name path touched = (after, .ok m)) :
    p.Loaded m := by
  unfold load at h
  split at h
  · simp at h
  · next source analysis hread =>
    split at h
    · simp at h
    · next hanswer =>
      split at h
      · simp at h
      · next text happly =>
        simp only [Prod.mk.injEq, Except.ok.injEq] at h
        obtain ⟨hlength, hlabels⟩ := answer_ok hanswer
        rw [← h.2]
        exact ⟨rfl, hlabels, source, analysis, hread, hlength, happly⟩

theorem Loaded.renamed {m n : Module} (h : p.Loaded m) (hr : Renamed name m n) :
    p.Loaded n := by
  rcases hr with rfl | ⟨-, rfl⟩
  · exact h
  · exact ⟨h.id_eq, h.labels, h.written⟩

end Project

namespace Walk

/-- The modules that wait. -/
def waiting (stack : List Frame) : List Module := stack.map (·.module)

/-- The modules of a walk: what is built, and what waits. -/
def modules (w : Walk) : List Module := w.graph.modules ++ waiting w.stack

/-- What holds in a walk from an entry point, where `before` has been built without it. -/
structure Invariant (p : Project) (name entry : String) (before : List Module) (w : Walk) :
    Prop where
  extending : Extends name before w.graph.modules
  nodup : (w.modules.map (·.id)).Nodup
  indexed : w.graph.Indexed
  /-- What is in progress is what waits. -/
  inProgress : ∀ id, id ∈ w.inProgress ↔ Knows (waiting w.stack) id
  names : ∀ m ∈ waiting w.stack, m.names = [name]
  loaded : ∀ m ∈ w.modules, p.Loaded m
  ahead : ∀ f ∈ w.stack, f.ahead ⊆ f.module.dependencies
  /-- What a built module depends on is built or waits. -/
  known : ∀ m ∈ w.graph.modules, ∀ d ∈ m.dependencies, Knows w.modules d.id
  /-- The name has gone on from every built module that has it. -/
  named : ∀ m ∈ w.graph.modules, m.hasName name = true → ∀ d ∈ m.dependencies,
    Named name w.modules d.id
  /-- The name has gone on from every waiting module as far as it has been looked at. -/
  framed : ∀ f ∈ w.stack, ∀ d ∈ f.module.dependencies, d ∈ f.ahead ∨ Named name w.modules d.id
  entered : Named name w.modules entry
  /-- The name has gone no further than dependencies lead. -/
  reached : ∀ id, Named name w.modules id → Reaches w.modules entry id

variable {p : Project} {name entry : String} {before ms : List Module} {w : Walk} {g : Graph}
  {stack : List Frame} {inProgress : List String} {m : Module} {d : Dependency}
  {ahead : List Dependency}

@[simp] theorem waiting_nil : waiting [] = [] := rfl

@[simp] theorem waiting_cons (f : Frame) (stack : List Frame) :
    waiting (f :: stack) = f.module :: waiting stack := rfl

theorem knows_append {ns : List Module} {id : String} :
    Knows (ms ++ ns) id ↔ Knows ms id ∨ Knows ns id := by
  simp [Knows, or_and_right, exists_or]

theorem named_append {ns : List Module} {id : String} :
    Named name (ms ++ ns) id ↔ Named name ms id ∨ Named name ns id := by
  simp [Named, or_and_right, exists_or]

theorem Invariant.waiting_hasName (h : Invariant p name entry before w)
    (hm : m ∈ waiting w.stack) : m.hasName name = true := by
  simp [Module.hasName, h.names m hm]

theorem Invariant.named_waiting (h : Invariant p name entry before w) {id : String}
    (hid : Knows (waiting w.stack) id) : Named name (waiting w.stack) id := by
  obtain ⟨m, hm, hid⟩ := hid
  exact ⟨m, hm, hid, h.waiting_hasName hm⟩

/-- What has been built waits no more. -/
theorem Invariant.apart (h : Invariant p name entry before w) {id : String}
    (hk : Knows w.graph.modules id) : ¬ Knows (waiting w.stack) id := by
  rintro ⟨b, hb, hid'⟩
  obtain ⟨a, ha, hid⟩ := hk
  have hn := h.nodup
  rw [modules, List.map_append, List.nodup_append] at hn
  exact hn.2.2 a.id (List.mem_map_of_mem ha) b.id (List.mem_map_of_mem hb) (hid.trans hid'.symm)

/-- Where the name goes from what is built, it stays there or comes to what waits. -/
theorem Invariant.named_or_wait (h : Invariant p name entry before w) :
    ∀ m ∈ w.graph.modules, m.hasName name = true → ∀ d ∈ m.dependencies,
      Named name w.graph.modules d.id ∨ ¬ Knows w.graph.modules d.id := by
  intro m hm hn d hd
  rcases named_append.mp (h.named m hm hn d hd) with hd | hd
  · exact .inl hd
  · exact .inr fun hk => h.apart hk hd.knows

/-- A module whose dependencies have all been looked at is built. -/
theorem Invariant.pop (h : Invariant p name entry before ⟨g, ⟨m, []⟩ :: stack, inProgress⟩) :
    Invariant p name entry before (pop g m stack inProgress) := by
  have hall : (Walk.pop g m stack inProgress).modules =
      modules ⟨g, ⟨m, []⟩ :: stack, inProgress⟩ := by
    simp [modules, Walk.pop, Graph.append]
  have hm : m ∈ waiting (⟨m, []⟩ :: stack) := by simp
  have hgone (d : Dependency) (hd : d ∈ m.dependencies) :
      Named name (modules ⟨g, ⟨m, []⟩ :: stack, inProgress⟩) d.id := by
    simpa using h.framed ⟨m, []⟩ List.mem_cons_self d hd
  have hwaits : ¬ Knows (waiting stack) m.id := by
    have hn := (List.nodup_append.mp (List.map_append ▸ h.nodup)).2.1
    rw [waiting_cons, List.map_cons, List.nodup_cons, ← knows_iff_mem_ids] at hn
    exact hn.1
  constructor
  case extending => exact h.extending.append (h.names m hm)
  case nodup => rw [hall]; exact h.nodup
  case indexed => exact h.indexed.append fun hk => h.apart hk ⟨m, hm, rfl⟩
  case inProgress =>
    intro id
    have hid := h.inProgress id
    simp only [waiting_cons, Knows, List.mem_cons, exists_eq_or_imp] at hid
    rw [Walk.pop, List.mem_filter, hid]
    by_cases he : m.id = id
    · subst he
      simp [hwaits]
    · simp [he, Knows, Ne.symm he]
  case names => exact fun k hk => h.names k (List.mem_cons_of_mem _ hk)
  case loaded => rw [hall]; exact h.loaded
  case ahead => exact fun f hf => h.ahead f (List.mem_cons_of_mem _ hf)
  case known =>
    rw [hall]
    intro k hk d hd
    rcases List.mem_append.mp hk with hk | hk
    · exact h.known k hk d hd
    · rw [List.mem_singleton.mp hk] at hd
      exact (hgone d hd).knows
  case named =>
    rw [hall]
    intro k hk hn d hd
    rcases List.mem_append.mp hk with hk | hk
    · exact h.named k hk hn d hd
    · rw [List.mem_singleton.mp hk] at hd
      exact hgone d hd
  case framed => rw [hall]; exact fun f hf => h.framed f (List.mem_cons_of_mem _ hf)
  case entered => rw [hall]; exact h.entered
  case reached => rw [hall]; exact h.reached

/-- A dependency that has the name by now needs no further look. -/
theorem Invariant.skip
    (h : Invariant p name entry before ⟨g, ⟨m, d :: ahead⟩ :: stack, inProgress⟩)
    (hd : Named name (modules ⟨g, ⟨m, ahead⟩ :: stack, inProgress⟩) d.id) :
    Invariant p name entry before ⟨g, ⟨m, ahead⟩ :: stack, inProgress⟩ where
  extending := h.extending
  nodup := h.nodup
  indexed := h.indexed
  inProgress := h.inProgress
  names := h.names
  loaded := h.loaded
  ahead := List.forall_mem_cons.mpr
    ⟨fun _ hk => h.ahead ⟨m, d :: ahead⟩ List.mem_cons_self (List.mem_cons_of_mem d hk),
      fun f hf => h.ahead f (List.mem_cons_of_mem _ hf)⟩
  known := h.known
  named := h.named
  framed := by
    refine List.forall_mem_cons.mpr ⟨fun k hk => ?_, fun f hf =>
      h.framed f (List.mem_cons_of_mem _ hf)⟩
    rcases h.framed ⟨m, d :: ahead⟩ List.mem_cons_self k hk with hk | hk
    · rcases List.mem_cons.mp hk with rfl | hk
      · exact .inr hd
      · exact .inl hk
    · exact .inr hk
  entered := h.entered
  reached := h.reached

/-- The dependencies of a waiting module are reached from the entry point. -/
theorem Invariant.reaches_ahead
    (h : Invariant p name entry before ⟨g, ⟨m, d :: ahead⟩ :: stack, inProgress⟩) :
    Reaches (modules ⟨g, ⟨m, d :: ahead⟩ :: stack, inProgress⟩) entry d.id := by
  have hm : m ∈ modules ⟨g, ⟨m, d :: ahead⟩ :: stack, inProgress⟩ := by simp [modules]
  have hr := h.reached m.id ⟨m, hm, rfl, h.waiting_hasName List.mem_cons_self⟩
  have hd : d ∈ m.dependencies :=
    h.ahead ⟨m, d :: ahead⟩ List.mem_cons_self List.mem_cons_self
  exact Relation.ReflTransGen.tail hr ⟨m, hm, rfl, d, hd, rfl⟩

/-- The name spreads from a dependency that has been built. -/
theorem Invariant.spread
    (h : Invariant p name entry before ⟨g, ⟨m, d :: ahead⟩ :: stack, inProgress⟩)
    (hd : Knows g.modules d.id) :
    Invariant p name entry before
      ⟨g.spreadName d.id name, ⟨m, ahead⟩ :: stack, inProgress⟩ := by
  have hi := h.indexed
  have hr := spreadName_renamed g d.id name
  have hall : List.Forall₂ (Renamed name) (modules ⟨g, ⟨m, d :: ahead⟩ :: stack, inProgress⟩)
      (modules ⟨g.spreadName d.id name, ⟨m, d :: ahead⟩ :: stack, inProgress⟩) :=
    List.rel_append hr (renamed_refl _)
  have happ {id : String} (hid : Named name (g.spreadName d.id name).modules id) :
      Named name (modules ⟨g.spreadName d.id name, ⟨m, d :: ahead⟩ :: stack, inProgress⟩) id :=
    named_append.mpr (.inl hid)
  refine Invariant.skip ?_ (happ (hi.named_spreadName hd))
  constructor
  case extending => exact h.extending.renamed hr
  case nodup => rw [renamed_ids hall]; exact h.nodup
  case indexed => exact hi.spreadName
  case inProgress => exact h.inProgress
  case names => exact h.names
  case loaded =>
    intro k hk
    obtain ⟨k', hk', hkr⟩ := exists_of_renamed hall hk
    exact (h.loaded k' hk').renamed hkr
  case ahead => exact h.ahead
  case known =>
    intro k hk e he
    obtain ⟨k', hk', hkr⟩ := exists_of_renamed hr hk
    rw [knows_renamed hall]
    exact h.known k' hk' e (hkr.dependencies_eq ▸ he)
  case named =>
    intro k hk hkn e he
    rcases hi.spreadName_closed h.named_or_wait k hk hkn e he with he' | he'
    · exact happ he'
    · obtain ⟨k', hk', hkr⟩ := exists_of_renamed hr hk
      rcases knows_append.mp (h.known k' hk' e (hkr.dependencies_eq ▸ he)) with hw | hw
      · exact absurd hw he'
      · exact named_append.mpr (.inr (h.named_waiting hw))
  case framed =>
    intro f hf e he
    exact (h.framed f hf e he).imp_right (·.renamed hall)
  case entered => exact h.entered.renamed hall
  case reached =>
    intro id hid
    rw [reaches_renamed hall]
    rcases named_append.mp hid with hid | hid
    · rcases hi.reaches_of_named_spreadName hid with hid | hra
      · exact h.reached id (named_append.mpr (.inl hid))
      · exact h.reaches_ahead.trans (hra.mono (List.subset_append_left _ _))
    · exact h.reached id (named_append.mpr (.inr hid))

/-- A module that has been loaded waits for its dependencies. -/
theorem Invariant.push {loaded : Module} {touched : PathSet}
    (h : Invariant p name entry before ⟨g, ⟨m, d :: ahead⟩ :: stack, inProgress⟩)
    (hd : ¬ Knows (modules ⟨g, ⟨m, ahead⟩ :: stack, inProgress⟩) d.id) (hid : loaded.id = d.id)
    (hnames : loaded.names = [name]) (hl : p.Loaded loaded) :
    Invariant p name entry before
      (push ⟨g, ⟨m, ahead⟩ :: stack, inProgress⟩ loaded touched) := by
  have hperm : (modules (Walk.push ⟨g, ⟨m, ahead⟩ :: stack, inProgress⟩ loaded touched)).Perm
      (loaded :: modules ⟨g, ⟨m, ahead⟩ :: stack, inProgress⟩) := List.perm_middle
  have hsub : modules ⟨g, ⟨m, ahead⟩ :: stack, inProgress⟩ ⊆
      modules (Walk.push ⟨g, ⟨m, ahead⟩ :: stack, inProgress⟩ loaded touched) :=
    fun k hk => hperm.mem_iff.mpr (List.mem_cons_of_mem _ hk)
  have hloaded : loaded ∈
      modules (Walk.push ⟨g, ⟨m, ahead⟩ :: stack, inProgress⟩ loaded touched) :=
    hperm.mem_iff.mpr List.mem_cons_self
  have hmono {id : String} (hk : Named name (modules ⟨g, ⟨m, ahead⟩ :: stack, inProgress⟩) id) :
      Named name (modules (Walk.push ⟨g, ⟨m, ahead⟩ :: stack, inProgress⟩ loaded touched)) id := by
    obtain ⟨k, hk, hid, hkn⟩ := hk
    exact ⟨k, hsub hk, hid, hkn⟩
  have hnamed : loaded.hasName name = true := by simp [Module.hasName, hnames]
  constructor
  case extending => exact h.extending
  case nodup =>
    rw [(hperm.map _).nodup_iff, List.map_cons, List.nodup_cons]
    refine ⟨fun hmem => hd ?_, h.nodup⟩
    obtain ⟨k, hk, hkid⟩ := List.mem_map.mp hmem
    exact ⟨k, hk, hkid.trans hid⟩
  case indexed => exact h.indexed
  case inProgress =>
    intro id
    have hid := h.inProgress id
    simp only [Walk.push, waiting_cons, List.mem_cons, Knows, exists_eq_or_imp] at hid ⊢
    rw [hid, eq_comm]
  case names => exact List.forall_mem_cons.mpr ⟨hnames, h.names⟩
  case loaded =>
    intro k hk
    rcases List.mem_cons.mp (hperm.mem_iff.mp hk) with rfl | hk
    · exact hl
    · exact h.loaded k hk
  case ahead =>
    refine List.forall_mem_cons.mpr ⟨fun _ hk => hk, List.forall_mem_cons.mpr ⟨fun k hk => ?_,
      fun f hf => h.ahead f (List.mem_cons_of_mem _ hf)⟩⟩
    exact h.ahead ⟨m, d :: ahead⟩ List.mem_cons_self (List.mem_cons_of_mem d hk)
  case known => exact fun k hk e he => (h.known k hk e he).mono hsub
  case named => exact fun k hk hkn e he => hmono (h.named k hk hkn e he)
  case framed =>
    intro f hf e he
    rcases List.mem_cons.mp hf with rfl | hf
    · exact .inl he
    rcases List.mem_cons.mp hf with rfl | hf
    · rcases h.framed ⟨m, d :: ahead⟩ List.mem_cons_self e he with he | he
      · rcases List.mem_cons.mp he with rfl | he
        · exact .inr ⟨loaded, hloaded, hid, hnamed⟩
        · exact .inl he
      · exact .inr (hmono he)
    · exact (h.framed f (List.mem_cons_of_mem _ hf) e he).imp_right hmono
  case entered => exact hmono h.entered
  case reached =>
    rintro id ⟨k, hk, hkid, hkn⟩
    rcases List.mem_cons.mp (hperm.mem_iff.mp hk) with rfl | hk
    · rw [← hkid, hid]
      exact h.reaches_ahead.mono hsub
    · exact (h.reached id ⟨k, hk, hkid, hkn⟩).mono hsub

/-- What holds when a walk comes to a module that has to be loaded, or to its end. -/
def Invariant.Settled (p : Project) (name entry : String) (before : List Module) :
    Walk × Option Dependency → Prop
  | (w, none) => Invariant p name entry before ⟨w.graph, [], []⟩
  | (w, some d) => ∃ m ahead stack, w.stack = ⟨m, ahead⟩ :: stack ∧
      Invariant p name entry before ⟨w.graph, ⟨m, d :: ahead⟩ :: stack, w.inProgress⟩ ∧
      ¬ Knows w.modules d.id

theorem settle_settled (h : Invariant p name entry before w) :
    Invariant.Settled p name entry before (settle name w) := by
  fun_induction settle name w with
  | case1 g inProgress => exact { h with inProgress := by simp [Knows] }
  | case2 g m stack inProgress ih => exact ih h.pop
  | case3 g m d ahead stack inProgress hd ih => exact ih (h.spread (h.indexed.has_iff.mp hd))
  | case4 g m d ahead stack inProgress hd hw ih =>
    have hk := h.named_waiting ((h.inProgress d.id).mp (List.contains_iff_mem.mp hw))
    exact ih (h.skip (named_append.mpr (.inr hk)))
  | case5 g m d ahead stack inProgress hd hw =>
    refine ⟨m, ahead, stack, rfl, h, ?_⟩
    rw [modules, knows_append, ← h.indexed.has_iff]
    rintro (hk | hk)
    · exact hd hk
    · exact hw (List.contains_iff_mem.mpr ((h.inProgress d.id).mpr hk))

theorem finish_invariant {after : Graph} {budget : Nat}
    (h : Invariant p name entry before w) (hf : finish p name budget w = (after, none)) :
    Invariant p name entry before ⟨after, [], []⟩ := by
  induction budget generalizing w with
  | zero =>
    have hs := settle_settled h
    unfold finish at hf
    split at hf
    · next w budget hw =>
      rw [hw] at hs
      simp only [Prod.mk.injEq, and_true] at hf
      exact hf ▸ hs
    · simp at hf
    · next hz => simp at hz
  | succ budget ih =>
    have hs := settle_settled h
    unfold finish at hf
    split at hf
    · next w _ hw =>
      rw [hw] at hs
      simp only [Prod.mk.injEq, and_true] at hf
      exact hf ▸ hs
    · next hz => simp at hz
    · next w d _ hw hz =>
      rw [hw] at hs
      obtain ⟨g, stack', inProgress⟩ := w
      obtain ⟨m, ahead, rest, rfl, hinv, hnot⟩ := hs
      cases hz
      split at hf
      · simp at hf
      · next touched loaded hl =>
        obtain ⟨hid, -, hnames⟩ := Project.load_id hl
        have hd : d.id = p.idOf d.path :=
          (hinv.loaded m (by simp [modules])).labels d
            (hinv.ahead ⟨m, d :: ahead⟩ List.mem_cons_self List.mem_cons_self)
        exact ih (hinv.push hnot (hid.trans hd.symm) hnames (Project.load_loaded hl)) hf

end Walk

end ModuleBundler
