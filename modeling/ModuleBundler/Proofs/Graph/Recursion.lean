import Mathlib.Data.List.Perm.Subperm
import ModuleBundler.Proofs.FileTree.Found
import ModuleBundler.Proofs.Graph.WalkInvariant

/-! The recursive build of all that an entry point depends on. A walk with a stack comes to the
same graph and the same failure. -/
namespace ModuleBundler
open ModuleBundler.Graph

/-- Looks at dependencies from left to right, where the modules of some ids wait for it. What has
been built is given the name, in the way of `give`; what waits is passed by; anything else is
loaded and appended behind all that it depends on in turn. The first failure is the last step. -/
inductive Visits (p : Project) (name : String) (give : Graph → String → String → Graph) :
    (waiting : List String) → Graph → List Dependency → Graph → Option BundleError → Prop
  | nothing {waiting : List String} {g : Graph} : Visits p name give waiting g [] g none
  | built {waiting : List String} {g after : Graph} {d : Dependency} {others : List Dependency}
      {failure : Option BundleError} (known : g.has d.id = true)
      (rest : Visits p name give waiting (give g d.id name) others after failure) :
      Visits p name give waiting g (d :: others) after failure
  | inProgress {waiting : List String} {g after : Graph} {d : Dependency}
      {others : List Dependency} {failure : Option BundleError} (unknown : g.has d.id = false)
      (waits : d.id ∈ waiting) (rest : Visits p name give waiting g others after failure) :
      Visits p name give waiting g (d :: others) after failure
  | unloaded {waiting : List String} {g : Graph} {d : Dependency} {others : List Dependency}
      {touched : PathSet} {e : BundleError} (unknown : g.has d.id = false)
      (new : d.id ∉ waiting) (load : p.load name d.path g.touched = (touched, .error e)) :
      Visits p name give waiting g (d :: others) { g with touched } (some e)
  | unfinished {waiting : List String} {g after : Graph} {d : Dependency}
      {others : List Dependency} {touched : PathSet} {m : Module} {e : BundleError}
      (unknown : g.has d.id = false) (new : d.id ∉ waiting)
      (load : p.load name d.path g.touched = (touched, .ok m))
      (inner : Visits p name give (m.id :: waiting) { g with touched } m.dependencies after
        (some e)) :
      Visits p name give waiting g (d :: others) after (some e)
  | loaded {waiting : List String} {g middle after : Graph} {d : Dependency}
      {others : List Dependency} {touched : PathSet} {m : Module} {failure : Option BundleError}
      (unknown : g.has d.id = false) (new : d.id ∉ waiting)
      (load : p.load name d.path g.touched = (touched, .ok m))
      (inner : Visits p name give (m.id :: waiting) { g with touched } m.dependencies middle none)
      (rest : Visits p name give waiting (middle.append m) others after failure) :
      Visits p name give waiting g (d :: others) after failure

/-- The recursive build of an entry point ends with a graph, and the id of the entry point or a
failure. -/
inductive Recursion (p : Project) (name : String) (give : Graph → String → String → Graph)
    (g : Graph) (path : Path) : Graph × Except BundleError String → Prop
  | finished {after : Graph}
      (run : Visits p name give [] (g.touch path) [⟨p.idOf path, path⟩] after none) :
      Recursion p name give g path (after, .ok (p.idOf path))
  | failed {after : Graph} {e : BundleError}
      (run : Visits p name give [] (g.touch path) [⟨p.idOf path, path⟩] after (some e)) :
      Recursion p name give g path (after, .error e)

section Determinism

variable {p : Project} {name : String} {give : Graph → String → String → Graph}
  {waiting : List String} {g after after' : Graph} {ds : List Dependency}
  {failure failure' : Option BundleError}

/-- The recursion has one outcome. -/
theorem Visits.deterministic (h : Visits p name give waiting g ds after failure)
    (h' : Visits p name give waiting g ds after' failure') :
    after = after' ∧ failure = failure' := by
  induction h generalizing after' failure' with
  | nothing =>
    cases h'
    exact ⟨rfl, rfl⟩
  | built known _ ih =>
    cases h' with
    | built _ rest => exact ih rest
    | _ => simp_all
  | inProgress unknown waits _ ih =>
    cases h' with
    | inProgress _ _ rest => exact ih rest
    | built known => simp_all
    | _ => contradiction
  | unloaded unknown new load =>
    cases h' with
    | unloaded _ _ load' =>
      rw [load] at load'
      cases load'
      exact ⟨rfl, rfl⟩
    | _ => simp_all
  | unfinished unknown new load _ ih =>
    cases h' with
    | unfinished _ _ load' inner =>
      rw [load] at load'
      cases load'
      exact ih inner
    | loaded _ _ load' inner =>
      rw [load] at load'
      cases load'
      cases (ih inner).2
    | _ => simp_all
  | loaded unknown new load _ _ ihInner ihRest =>
    cases h' with
    | unfinished _ _ load' inner =>
      rw [load] at load'
      cases load'
      cases (ihInner inner).2
    | loaded _ _ load' inner rest =>
      rw [load] at load'
      cases load'
      obtain ⟨rfl, -⟩ := ihInner inner
      exact ihRest rest
    | _ => simp_all

theorem Recursion.deterministic {path : Path} {o o' : Graph × Except BundleError String}
    (h : Recursion p name give g path o) (h' : Recursion p name give g path o') : o = o' := by
  cases h with
  | finished run =>
    cases h' with
    | finished run' => rw [(run.deterministic run').1]
    | failed run' => cases (run.deterministic run').2
  | failed run =>
    cases h' with
    | finished run' => cases (run.deterministic run').2
    | failed run' =>
      obtain ⟨rfl, he⟩ := run.deterministic run'
      cases he
      rfl

end Determinism

namespace Project

variable {p : Project} {name : String} {path importer : Path} {touched after : PathSet}

/-- The ids of the modules that the files of a tree are. -/
def fileIds (p : Project) : List String :=
  p.resolver.tree.locations.map fun location => p.idOf (.ofLocation location)

theorem answer_fileIds {requests : List Request} {ds : List Dependency}
    (h : p.answer importer touched requests = (after, .ok ds)) :
    ∀ d ∈ ds, d.id ∈ p.fileIds := by
  induction requests generalizing touched after ds with
  | nil =>
    cases h
    simp
  | cons request requests ih =>
    unfold answer at h
    split at h
    · simp at h
    · next hresolve =>
      split at h
      · next hrest =>
        cases h
        intro d hd
        rcases List.mem_cons.mp hd with rfl | hd
        · obtain ⟨location, hl, rfl, -⟩ := Resolver.exists_of_resolve hresolve
          exact List.mem_map_of_mem hl
        · exact ih hrest d hd
      · next hne => exact absurd h (hne _ _)

/-- Whatever a module asks for is a file of the tree. -/
theorem load_fileIds {m : Module} (h : p.load name path touched = (after, .ok m)) :
    ∀ d ∈ m.dependencies, d.id = p.idOf d.path ∧ d.id ∈ p.fileIds := by
  refine fun d hd => ⟨(load_loaded h).labels d hd, ?_⟩
  unfold load at h
  split at h
  · simp at h
  split at h
  · simp at h
  next hanswer =>
  split at h
  · simp at h
  cases h
  exact answer_fileIds hanswer d hd

end Project

namespace Walk

variable {p : Project} {name : String} {g after : Graph} {stack : List Frame} {m : Module}
  {d : Dependency} {ahead : List Dependency} {failure : Option BundleError} {w : Walk}
  {inProgress : List String}

/-- The ids of the modules that wait. -/
def waitingIds (stack : List Frame) : List String := stack.map (·.module.id)

@[simp] theorem waitingIds_cons (f : Frame) (stack : List Frame) :
    waitingIds (f :: stack) = f.module.id :: waitingIds stack := rfl

/-- What is in progress is what waits, and waits once. -/
structure Tracks (w : Walk) : Prop where
  mem_iff : ∀ id, id ∈ w.inProgress ↔ id ∈ waitingIds w.stack
  nodup : (waitingIds w.stack).Nodup

namespace Tracks

theorem start (g : Graph) (m : Module) : Tracks (.start g m) := by
  constructor <;> simp [Walk.start, waitingIds]

theorem pop (h : Tracks ⟨g, ⟨m, []⟩ :: stack, inProgress⟩) :
    Tracks (.pop g m stack inProgress) := by
  obtain ⟨hm, hn⟩ := List.nodup_cons.mp h.nodup
  refine ⟨fun id => ?_, hn⟩
  rw [Walk.pop, List.mem_filter, h.mem_iff, waitingIds_cons, List.mem_cons]
  constructor
  · rintro ⟨rfl | hid, hne⟩
    · simp at hne
    · exact hid
  · intro hid
    refine ⟨.inr hid, ?_⟩
    have hne : id ≠ m.id := by
      rintro rfl
      exact hm hid
    simpa using hne

theorem push {touched : PathSet} (h : Tracks w) (new : m.id ∉ w.inProgress) :
    Tracks (w.push m touched) where
  mem_iff id := by
    rw [Walk.push, List.mem_cons, h.mem_iff, waitingIds_cons, List.mem_cons]
  nodup := List.nodup_cons.mpr ⟨(h.mem_iff m.id).not.mp new, h.nodup⟩

end Tracks

/-- The recursion does what a stack still has to do: it looks at what lies ahead of the last
module that waits, appends that module, and goes on in the one below it. -/
inductive Completes (p : Project) (name : String) :
    List Frame → Graph → Graph → Option BundleError → Prop
  | empty {g : Graph} : Completes p name [] g g none
  | stopped {stack : List Frame} {m : Module} {ahead : List Dependency} {g after : Graph}
      {e : BundleError}
      (run : Visits p name spreadName (m.id :: waitingIds stack) g ahead
        after (some e)) :
      Completes p name (⟨m, ahead⟩ :: stack) g after (some e)
  | popped {stack : List Frame} {m : Module} {ahead : List Dependency} {g middle after : Graph}
      {failure : Option BundleError}
      (run : Visits p name spreadName (m.id :: waitingIds stack) g ahead
        middle none)
      (below : Completes p name stack (middle.append m) after failure) :
      Completes p name (⟨m, ahead⟩ :: stack) g after failure

/-- One more step in the last module that waits. -/
theorem Completes.step {before : Graph} {ahead' : List Dependency}
    (h : Completes p name (⟨m, ahead⟩ :: stack) g after failure)
    (hstep : ∀ {after failure},
      Visits p name spreadName (m.id :: waitingIds stack) g ahead after
        failure →
      Visits p name spreadName (m.id :: waitingIds stack) before ahead'
        after failure) :
    Completes p name (⟨m, ahead'⟩ :: stack) before after failure := by
  cases h with
  | stopped run => exact .stopped (hstep run)
  | popped run below => exact .popped (hstep run) below

/-- A module that is loaded is pushed on the stack, where the recursion goes into it. -/
theorem Completes.push {touched : PathSet} {loaded : Module}
    (h : Completes p name (⟨loaded, loaded.dependencies⟩ :: ⟨m, ahead⟩ :: stack)
      { g with touched } after failure)
    (unknown : g.has d.id = false) (new : d.id ∉ waitingIds (⟨m, ahead⟩ :: stack))
    (load : p.load name d.path g.touched = (touched, .ok loaded)) :
    Completes p name (⟨m, d :: ahead⟩ :: stack) g after failure := by
  cases h with
  | stopped inner => exact .stopped (.unfinished unknown new load inner)
  | popped inner below => exact below.step fun rest => .loaded unknown new load inner rest

/-- There are budget and files enough: a walk that has loaded all but `budget` of the files has
at most that many to load, since each file is loaded once. -/
structure Affords (p : Project) (budget : Nat) (w : Walk) : Prop where
  loaded : ∃ ids : List String, ids.Nodup ∧ ids ⊆ p.fileIds ∧
    (∀ id ∈ ids, w.graph.has id = true ∨ id ∈ w.inProgress) ∧
    p.fileIds.length ≤ ids.length + budget
  ahead : ∀ f ∈ w.stack, ∀ d ∈ f.ahead, d.id = p.idOf d.path ∧ d.id ∈ p.fileIds

namespace Affords

variable {budget : Nat}

/-- What has been met is not forgotten, and nothing new lies ahead. -/
theorem keep {w' : Walk} (h : Affords p budget w)
    (hmet : ∀ {id}, w.graph.has id = true ∨ id ∈ w.inProgress →
      w'.graph.has id = true ∨ id ∈ w'.inProgress)
    (hahead : ∀ f' ∈ w'.stack, ∀ d ∈ f'.ahead, ∃ f ∈ w.stack, d ∈ f.ahead) :
    Affords p budget w' := by
  obtain ⟨ids, hn, hs, hm, hl⟩ := h.loaded
  refine ⟨⟨ids, hn, hs, fun id hid => hmet (hm id hid), hl⟩, fun f' hf' d hd => ?_⟩
  obtain ⟨f, hf, hd⟩ := hahead f' hf' d hd
  exact h.ahead f hf d hd

theorem pop (h : Affords p budget ⟨g, ⟨m, []⟩ :: stack, inProgress⟩) :
    Affords p budget (.pop g m stack inProgress) := by
  refine h.keep (fun {id} hid => ?_) fun f hf d hd => ⟨f, List.mem_cons_of_mem _ hf, hd⟩
  by_cases he : id = m.id
  · exact .inl (has_append.mpr (.inl he))
  · exact hid.imp (fun h => has_append.mpr (.inr h))
      fun h => List.mem_filter.mpr ⟨h, by simpa using he⟩

theorem skip (h : Affords p budget ⟨g, ⟨m, d :: ahead⟩ :: stack, inProgress⟩) :
    Affords p budget ⟨g, ⟨m, ahead⟩ :: stack, inProgress⟩ := by
  refine h.keep id fun f hf e he => ?_
  rcases List.mem_cons.mp hf with rfl | hf
  · exact ⟨_, List.mem_cons_self .., List.mem_cons_of_mem d he⟩
  · exact ⟨f, List.mem_cons_of_mem _ hf, he⟩

theorem spread {id : String} (h : Affords p budget ⟨g, stack, inProgress⟩) :
    Affords p budget ⟨g.spreadName id name, stack, inProgress⟩ :=
  h.keep (fun hid => hid) fun f hf _ hd => ⟨f, hf, hd⟩

/-- What has not been met is one of the files, and not one of those that were loaded. -/
theorem exists_unloaded (h : Affords p budget ⟨g, ⟨m, d :: ahead⟩ :: stack, inProgress⟩)
    (unknown : g.has d.id = false) (new : d.id ∉ inProgress) :
    ∃ ids : List String, (d.id :: ids).Nodup ∧ d.id :: ids ⊆ p.fileIds ∧
      (∀ id ∈ ids, g.has id = true ∨ id ∈ inProgress) ∧
      p.fileIds.length ≤ ids.length + budget := by
  obtain ⟨ids, hn, hs, hm, hl⟩ := h.loaded
  have hd := (h.ahead ⟨m, d :: ahead⟩ List.mem_cons_self d List.mem_cons_self).2
  refine ⟨ids, List.nodup_cons.mpr ⟨fun hmem => ?_, hn⟩, List.cons_subset.mpr ⟨hd, hs⟩, hm, hl⟩
  rcases hm d.id hmem with hk | hw
  · rw [unknown] at hk
    cases hk
  · exact new hw

/-- There is budget for what has not been met. -/
theorem budget_pos (h : Affords p budget ⟨g, ⟨m, d :: ahead⟩ :: stack, inProgress⟩)
    (unknown : g.has d.id = false) (new : d.id ∉ inProgress) : 0 < budget := by
  obtain ⟨ids, hn, hs, -, hl⟩ := h.exists_unloaded unknown new
  have := (List.subperm_of_subset hn hs).length_le
  simp at this
  omega

/-- What is loaded has the id of the dependency that it is loaded for. -/
theorem id_eq {touched : PathSet} {loaded : Module}
    (h : Affords p budget ⟨g, ⟨m, d :: ahead⟩ :: stack, inProgress⟩)
    (load : p.load name d.path g.touched = (touched, .ok loaded)) : loaded.id = d.id := by
  rw [(Project.load_id load).1,
    (h.ahead ⟨m, d :: ahead⟩ List.mem_cons_self d List.mem_cons_self).1]

theorem push {touched : PathSet} {loaded : Module}
    (h : Affords p (budget + 1) ⟨g, ⟨m, d :: ahead⟩ :: stack, inProgress⟩)
    (unknown : g.has d.id = false) (new : d.id ∉ inProgress)
    (load : p.load name d.path g.touched = (touched, .ok loaded)) :
    Affords p budget (.push ⟨g, ⟨m, ahead⟩ :: stack, inProgress⟩ loaded touched) := by
  obtain ⟨ids, hn, hs, hm, hl⟩ := h.exists_unloaded unknown new
  constructor
  case loaded =>
    refine ⟨d.id :: ids, hn, hs, List.forall_mem_cons.mpr ⟨.inr ?_, fun id hmem => ?_⟩, ?_⟩
    · exact List.mem_cons.mpr (.inl (h.id_eq load).symm)
    · exact (hm id hmem).imp_right (List.mem_cons_of_mem _)
    · rw [List.length_cons]
      omega
  case ahead =>
    exact List.forall_mem_cons.mpr ⟨Project.load_fileIds load, h.skip.ahead⟩

end Affords

/-- What a settled walk has left to do, and that doing it completes what there was to do. -/
def Settled (p : Project) (name : String) (budget : Nat) (stack : List Frame) (g : Graph) :
    Walk × Option Dependency → Prop
  | (w, none) => Completes p name stack g w.graph none
  | (w, some d) => ∃ m ahead rest, w.stack = ⟨m, ahead⟩ :: rest ∧ w.graph.has d.id = false ∧
      d.id ∉ w.inProgress ∧ Tracks w ∧
      Affords p budget ⟨w.graph, ⟨m, d :: ahead⟩ :: rest, w.inProgress⟩ ∧
      ∀ {after failure}, Completes p name (⟨m, d :: ahead⟩ :: rest) w.graph after failure →
        Completes p name stack g after failure

theorem Settled.of_step {budget : Nat} {stack' : List Frame} {g' : Graph}
    {r : Walk × Option Dependency} (h : Settled p name budget stack' g' r)
    (hstep : ∀ {after failure}, Completes p name stack' g' after failure →
      Completes p name stack g after failure) : Settled p name budget stack g r := by
  obtain ⟨w, d⟩ := r
  cases d with
  | none => exact hstep h
  | some d =>
    obtain ⟨m, ahead, rest, hw, unknown, new, ht, hb, hc⟩ := h
    exact ⟨m, ahead, rest, hw, unknown, new, ht, hb, fun hrest => hstep (hc hrest)⟩

theorem settle_completes (name : String) {budget : Nat} (ht : Tracks w) (h : Affords p budget w) :
    Settled p name budget w.stack w.graph (settle name w) := by
  fun_induction settle name w with
  | case1 g inProgress => exact .empty
  | case2 g m stack inProgress ih => exact (ih ht.pop h.pop).of_step (.popped .nothing)
  | case3 g m d ahead stack inProgress hd ih =>
    exact (ih ⟨ht.mem_iff, ht.nodup⟩ h.skip.spread).of_step fun hc => hc.step (.built hd)
  | case4 g m d ahead stack inProgress hd hw ih =>
    have hwaits := (ht.mem_iff d.id).mp (List.contains_iff_mem.mp hw)
    exact (ih ⟨ht.mem_iff, ht.nodup⟩ h.skip).of_step fun hc =>
      hc.step (.inProgress (Bool.eq_false_iff.mpr hd) hwaits)
  | case5 g m d ahead stack inProgress hd hw =>
    exact ⟨m, ahead, stack, rfl, Bool.eq_false_iff.mpr hd,
      fun hmem => hw (List.contains_iff_mem.mpr hmem), ⟨ht.mem_iff, ht.nodup⟩, h, id⟩

/-- A walk with a stack does what the recursion does. -/
theorem finish_completes {budget : Nat} (ht : Tracks w) (h : Affords p budget w)
    (hf : finish p name budget w = (after, failure)) :
    Completes p name w.stack w.graph after failure := by
  induction budget generalizing w with
  | zero =>
    have hs := settle_completes name ht h
    unfold finish at hf
    split at hf
    · next w _ hw =>
      rw [hw] at hs
      cases hf
      exact hs
    · next w d hw _ =>
      rw [hw] at hs
      obtain ⟨m, ahead, rest, -, unknown, new, -, hb, -⟩ := hs
      exact absurd (hb.budget_pos unknown new) (Nat.lt_irrefl 0)
    · next hz => simp at hz
  | succ budget ih =>
    have hs := settle_completes name ht h
    unfold finish at hf
    split at hf
    · next w _ hw =>
      rw [hw] at hs
      cases hf
      exact hs
    · next hz => simp at hz
    · next w d _ hw hz =>
      rw [hw] at hs
      obtain ⟨g, stack, inProgress⟩ := w
      obtain ⟨m, ahead, rest, rfl, unknown, new, ht, hb, hc⟩ := hs
      cases hz
      split at hf
      · next touched e hload =>
        cases hf
        exact hc (.stopped (.unloaded unknown ((ht.mem_iff d.id).not.mp new) hload))
      · next touched loaded hload =>
        have ht' : Tracks (.push ⟨g, ⟨m, ahead⟩ :: rest, inProgress⟩ loaded touched) :=
          ht.push (hb.id_eq hload ▸ new)
        refine hc ((ih ht' (hb.push unknown new hload) hf).push unknown ?_ hload)
        exact (ht.mem_iff d.id).not.mp new

/-- Before a walk no file has been loaded, and there is budget for all. -/
theorem affords_start {touched : PathSet} {path : Path} {loaded : Module} {before : PathSet}
    (load : p.load name path before = (touched, .ok loaded)) :
    Affords p p.resolver.tree.nodes.length (.start g loaded) := by
  refine ⟨⟨[], by simp [Project.fileIds]⟩, fun f hf d hd => ?_⟩
  obtain rfl := List.mem_singleton.mp hf
  exact Project.load_fileIds load d hd

end Walk

/-- Adding an entry point does what the recursion does. -/
theorem Graph.addEntry_recursion (p : Project) (name : String) (g : Graph) (path : Path) :
    Recursion p name spreadName g path (g.addEntry p name path) := by
  unfold addEntry
  dsimp only
  split
  · next hhas => exact .finished (.built hhas .nothing)
  · next hhas =>
    have unknown : (g.touch path).has (p.idOf path) = false := by simpa using hhas
    have new : p.idOf path ∉ ([] : List String) := by simp
    split
    · next touched e hload => exact .failed (.unloaded unknown new hload)
    · next touched m hload =>
      -- the entry point is loaded as if a frame below it had asked for it
      generalize hrun : Walk.finish p name p.resolver.tree.nodes.length
        (.start { g.touch path with touched } m) = r
      obtain ⟨after, failure⟩ := r
      cases Walk.finish_completes (.start _ m) (Walk.affords_start hload) hrun with
      | stopped inner => exact .failed (.unfinished unknown new hload inner)
      | popped inner below =>
        cases below
        exact .finished (.loaded unknown new hload inner .nothing)

end ModuleBundler
