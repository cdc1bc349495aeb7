import ModuleBundler.Proofs.Graph.Closure

/-! The order in which modules are built: each of them after all that it depends on, apart from
modules that lead back to it. -/
namespace ModuleBundler

/-- The module without the names of entry points. -/
def Module.bare (m : Module) : Module := { m with names := [] }

namespace Graph

variable {p : Project} {name id a b : String} {waiting : List String} {ms ns before : List Module}
  {m : Module} {d : Dependency} {g after : Graph} {path : Path}

/-- The modules without the names of entry points. -/
def bare (ms : List Module) : List Module := ms.map Module.bare

@[simp] theorem bare_append : bare (ms ++ ns) = bare ms ++ bare ns := by simp [bare]

@[simp] theorem knows_bare : Knows (bare ms) id ↔ Knows ms id := by
  simp [Knows, bare, Module.bare]

@[simp] theorem asks_bare : Asks (bare ms) a b ↔ Asks ms a b := by
  simp [Asks, bare, Module.bare]

@[simp] theorem reaches_bare : Reaches (bare ms) a b ↔ Reaches ms a b := by
  have he : Asks (bare ms) = Asks ms := by
    funext a b
    exact propext asks_bare
  rw [Reaches, Reaches, he]

theorem bare_renamed (h : List.Forall₂ (Renamed name) ms ns) : bare ns = bare ms := by
  induction h with
  | nil => rfl
  | cons hr _ ih =>
    rw [bare, bare, List.map_cons, List.map_cons, ← bare, ← bare, ih]
    rcases hr with rfl | ⟨-, rfl⟩ <;> rfl

/-- Names are all that spreads. -/
@[simp] theorem bare_spreadName : bare (g.spreadName id name).modules = bare g.modules :=
  bare_renamed (spreadName_renamed g id name)

/-- Every module of a list is as it has to be behind those that stand before it. -/
def Ordered (P : List Module → Module → Prop) : List Module → List Module → Prop
  | _, [] => True
  | before, m :: ms => P before m ∧ Ordered P (before ++ [m]) ms

section Ordered

variable {P Q : List Module → Module → Prop}

theorem ordered_append :
    Ordered P before (ms ++ ns) ↔ Ordered P before ms ∧ Ordered P (before ++ ms) ns := by
  induction ms generalizing before with
  | nil => simp [Ordered]
  | cons m ms ih => simp [Ordered, ih, and_assoc]

theorem Ordered.imp (h : Ordered P before ms)
    (hPQ : ∀ {before m}, m ∈ ms → P before m → Q before m) : Ordered Q before ms := by
  induction ms generalizing before with
  | nil => trivial
  | cons m ms ih =>
    exact ⟨hPQ (by simp) h.1, ih h.2 fun hm => hPQ (List.mem_cons_of_mem _ hm)⟩

theorem Ordered.of_split (h : Ordered P before (ms ++ m :: ns)) : P (before ++ ms) m :=
  (ordered_append.mp h).2.1

end Ordered

/-- Whatever a module depends on stands before it, or waits, or leads back to it. -/
def Behind (waiting : List String) (all before : List Module) (m : Module) : Prop :=
  ∀ d ∈ m.dependencies, Knows before d.id ∨ d.id ∈ waiting ∨ Reaches all d.id m.id

/-- What becomes of a graph when dependencies are looked at: modules are added, all of which are
reached from there, in order. Those in `unfinished` have been loaded, but a failure comes before
they are built. -/
structure Grown (p : Project) (name : String) (waiting : List String) (g after : Graph)
    (ds : List Dependency) (failure : Option BundleError) (new unfinished : List Module) :
    Prop where
  modules : bare after.modules = bare g.modules ++ new
  reached : ∀ m ∈ new, ∃ d ∈ ds, Reaches (after.modules ++ unfinished) d.id m.id
  ordered : Ordered (Behind waiting (after.modules ++ unfinished)) (bare g.modules) new
  loaded : ∀ m ∈ unfinished, ∃ before touched, p.load name m.path before = (touched, .ok m)
  met : failure = none → unfinished = [] ∧ ∀ d ∈ ds, Knows after.modules d.id ∨ d.id ∈ waiting

namespace Grown

variable {ds : List Dependency} {failure : Option BundleError} {new unfinished : List Module}

theorem nothing : Grown p name waiting g g [] none [] [] where
  modules := by simp
  reached := by simp
  ordered := trivial
  loaded := by simp
  met := by simp

theorem knows (h : Grown p name waiting g after ds failure new unfinished)
    (hk : Knows g.modules id) : Knows after.modules id := by
  rw [← knows_bare] at hk ⊢
  rw [h.modules]
  exact hk.mono (List.subset_append_left _ _)

/-- A dependency that needs no load is passed by. -/
theorem skip {g' : Graph} (h : Grown p name waiting g' after ds failure new unfinished)
    (hg : bare g'.modules = bare g.modules) (hd : Knows g'.modules d.id ∨ d.id ∈ waiting) :
    Grown p name waiting g after (d :: ds) failure new unfinished where
  modules := hg ▸ h.modules
  reached := fun m hm => by
    obtain ⟨e, he, hr⟩ := h.reached m hm
    exact ⟨e, List.mem_cons_of_mem d he, hr⟩
  ordered := hg ▸ h.ordered
  loaded := h.loaded
  met := fun hf =>
    ⟨(h.met hf).1, List.forall_mem_cons.mpr ⟨hd.imp_left h.knows, (h.met hf).2⟩⟩

theorem reaches (h : Grown p name waiting g after ds failure new unfinished)
    (hr : Reaches g.modules a b) : Reaches (after.modules ++ unfinished) a b := by
  rw [← reaches_bare] at hr ⊢
  refine hr.mono ?_
  rw [bare_append, h.modules, List.append_assoc]
  exact List.subset_append_left _ _

end Grown

/-- What is asked for by a module leads on from there. -/
theorem reaches_of_mem (hm : m ∈ ms) (hd : d ∈ m.dependencies) (hr : Reaches ms d.id a) :
    Reaches ms m.id a :=
  .head ⟨m, hm, rfl, d, hd, rfl⟩ hr

/-- What waits for a module is in order without it, where the module leads to all of that. -/
theorem Ordered.behind {ks : List Module} (h : Ordered (Behind (id :: waiting) ms) before ks)
    (hall : ∀ {a b}, Reaches ms a b → Reaches ns a b) (hreach : ∀ k ∈ ks, Reaches ns id k.id) :
    Ordered (Behind waiting ns) before ks := by
  refine h.imp fun {before k} hk hb d hd => ?_
  rcases hb d hd with hd | hd | hd
  · exact .inl hd
  · rcases List.mem_cons.mp hd with hd | hd
    · exact .inr (.inr (hd ▸ hreach k hk))
    · exact .inr (.inl hd)
  · exact .inr (.inr (hall hd))

namespace Grown

variable {ds others : List Dependency} {failure : Option BundleError}
  {new late unfinished : List Module} {touched : PathSet}

/-- A failure below a module leaves it unfinished. -/
theorem unfinish {e : BundleError} (hid : m.id = d.id)
    (load : p.load name d.path g.touched = (touched, .ok m))
    (h : Grown p name (m.id :: waiting) { g with touched } after m.dependencies (some e) new
      unfinished) :
    Grown p name waiting g after (d :: others) (some e) new (m :: unfinished) := by
  have hsub : after.modules ++ unfinished ⊆ after.modules ++ m :: unfinished :=
    ((List.sublist_cons_self m unfinished).append_left _).subset
  have hm : m ∈ after.modules ++ m :: unfinished := by simp
  have hreach (k : Module) (hk : k ∈ new) :
      Reaches (after.modules ++ m :: unfinished) m.id k.id := by
    obtain ⟨e, he, hr⟩ := h.reached k hk
    exact reaches_of_mem hm he (hr.mono hsub)
  constructor
  case modules => exact h.modules
  case reached => exact fun k hk => ⟨d, by simp, hid ▸ hreach k hk⟩
  case ordered => exact h.ordered.behind (·.mono hsub) hreach
  case loaded =>
    refine List.forall_mem_cons.mpr ⟨⟨g.touched, touched, ?_⟩, h.loaded⟩
    rw [(Project.load_id load).2.1, load]
  case met => simp

/-- A module that has been loaded is built after what it depends on. -/
theorem load {middle : Graph} (hid : m.id = d.id)
    (h : Grown p name (m.id :: waiting) { g with touched } middle m.dependencies none new [])
    (hrest : Grown p name waiting (middle.append m) after others failure late unfinished) :
    Grown p name waiting g after (d :: others) failure (new ++ m.bare :: late) unfinished := by
  have hbare : bare (middle.append m).modules = bare g.modules ++ new ++ [m.bare] := by
    rw [Graph.append, bare_append, h.modules]
    rfl
  have hsub : middle.modules ⊆ (middle.append m).modules := List.subset_append_left _ _
  have hm : m ∈ (middle.append m).modules := by simp [Graph.append]
  have hreach (k : Module) (hk : k ∈ new) :
      Reaches (after.modules ++ unfinished) m.id k.id := by
    obtain ⟨e, he, hr⟩ := h.reached k hk
    rw [List.append_nil] at hr
    exact hrest.reaches (reaches_of_mem hm he (hr.mono hsub))
  have hmet := (h.met rfl).2
  constructor
  case modules => rw [hrest.modules, hbare]; simp
  case reached =>
    intro k hk
    rcases List.mem_append.mp hk with hk | hk
    · exact ⟨d, by simp, hid ▸ hreach k hk⟩
    rcases List.mem_cons.mp hk with rfl | hk
    · exact ⟨d, by simp, hid ▸ .refl⟩
    · obtain ⟨e, he, hr⟩ := hrest.reached k hk
      exact ⟨e, List.mem_cons_of_mem d he, hr⟩
  case ordered =>
    rw [ordered_append]
    refine ⟨h.ordered.behind (fun hr => ?_) hreach, fun e he => ?_, hbare ▸ hrest.ordered⟩
    · rw [List.append_nil] at hr
      exact hrest.reaches (hr.mono hsub)
    · rcases hmet e he with hk | hw
      · exact .inl (h.modules ▸ knows_bare.mpr hk)
      · rcases List.mem_cons.mp hw with hw | hw
        · exact .inr (.inr (hw ▸ .refl))
        · exact .inr (.inl hw)
  case loaded => exact hrest.loaded
  case met =>
    intro hf
    refine ⟨(hrest.met hf).1, List.forall_mem_cons.mpr ⟨.inl ?_, (hrest.met hf).2⟩⟩
    exact hrest.knows ⟨m, hm, hid⟩

end Grown
end Graph

open ModuleBundler.Graph

variable {p : Project} {name id : String} {waiting : List String} {g after : Graph}
  {ds : List Dependency} {failure : Option BundleError} {path : Path}

/-- A recursive build puts what it builds into the index, and nothing else. -/
theorem Visits.sound (h : Visits p name spreadName waiting g ds after failure) (hg : g.Sound) :
    after.Sound := by
  induction h with
  | nothing | unloaded => exact hg
  | built _ _ ih => exact ih hg.spreadName
  | inProgress _ _ _ ih => exact ih hg
  | unfinished _ _ _ _ ih => exact ih hg
  | loaded _ _ _ _ _ ihInner ihRest => exact ihRest (ihInner hg).append

/-- A recursive build adds modules in order. -/
theorem Visits.grown (h : Visits p name spreadName waiting g ds after failure) (hg : g.Sound)
    (labels : ∀ d ∈ ds, d.id = p.idOf d.path) :
    ∃ new unfinished, Grown p name waiting g after ds failure new unfinished := by
  induction h with
  | nothing => exact ⟨[], [], .nothing⟩
  | built known _ ih =>
    obtain ⟨new, unfinished, h⟩ := ih hg.spreadName (List.forall_mem_cons.mp labels).2
    exact ⟨new, unfinished, h.skip bare_spreadName (.inl (knows_spreadName.mpr (hg _ known)))⟩
  | inProgress unknown waits _ ih =>
    obtain ⟨new, unfinished, h⟩ := ih hg (List.forall_mem_cons.mp labels).2
    exact ⟨new, unfinished, h.skip rfl (.inr waits)⟩
  | unloaded unknown new load => exact ⟨[], [], by simp, by simp, trivial, by simp, by simp⟩
  | unfinished unknown new load _ ih =>
    obtain ⟨new, unfinished, h⟩ := ih hg (Project.load_loaded load).labels
    have hid := (Project.load_id load).1.trans (labels _ (by simp)).symm
    exact ⟨new, _, h.unfinish hid load⟩
  | loaded unknown new load inner _ ihInner ihRest =>
    obtain ⟨new, unfinished, h⟩ := ihInner hg (Project.load_loaded load).labels
    obtain rfl := (h.met rfl).1
    obtain ⟨late, unfinished, hrest⟩ :=
      ihRest (inner.sound hg).append (List.forall_mem_cons.mp labels).2
    have hid := (Project.load_id load).1.trans (labels _ (by simp)).symm
    exact ⟨_, _, h.load hid hrest⟩

/-- The build of an entry point leaves modules in order that were in order before. -/
theorem Recursion.ordered {outcome : Graph × Except BundleError String}
    (h : Recursion p name spreadName g path outcome) (hs : g.Sound)
    (hg : Ordered (Behind [] g.modules) [] (bare g.modules)) :
    ∃ unfinished,
      (∀ m ∈ unfinished, ∃ before touched, p.load name m.path before = (touched, .ok m)) ∧
      ((∃ id, outcome.2 = .ok id) → unfinished = []) ∧
      Ordered (Behind [] (outcome.1.modules ++ unfinished)) [] (bare outcome.1.modules) := by
  have hall {after : Graph} {failure : Option BundleError}
      (run : Visits p name spreadName [] (g.touch path) [⟨p.idOf path, path⟩] after failure) :
      ∃ unfinished,
        (∀ m ∈ unfinished, ∃ before touched, p.load name m.path before = (touched, .ok m)) ∧
        (failure = none → unfinished = []) ∧
        Ordered (Behind [] (after.modules ++ unfinished)) [] (bare after.modules) := by
    obtain ⟨new, unfinished, hgrown⟩ := run.grown hs (by simp)
    refine ⟨unfinished, hgrown.loaded, fun hf => (hgrown.met hf).1, ?_⟩
    rw [hgrown.modules, ordered_append]
    refine ⟨hg.imp fun _ hb d hd => ?_, hgrown.ordered⟩
    exact (hb d hd).imp_right (.imp_right hgrown.reaches)
  cases h with
  | finished run =>
    obtain ⟨unfinished, hloaded, hnone, hordered⟩ := hall run
    exact ⟨unfinished, hloaded, fun _ => hnone rfl, hordered⟩
  | failed run =>
    obtain ⟨unfinished, hloaded, -, hordered⟩ := hall run
    exact ⟨unfinished, hloaded, by simp, hordered⟩

namespace Graph

variable {points : List (String × Path)}

theorem Built.ordered (h : Built p points g) :
    Ordered (Behind [] g.modules) [] (bare g.modules) := by
  induction h with
  | nothing => trivial
  | @add _ g after name id path before added ih =>
    obtain ⟨unfinished, -, hnone, hordered⟩ :=
      (g.addEntry_recursion p name path).ordered (before.consistent name).graph.sound ih
    rw [added] at hnone hordered
    obtain rfl := hnone ⟨id, rfl⟩
    simpa using hordered

/-- After any entry points that were added with success, adding one more has the outcome of the
recursive build, and no other: the same modules in the same order and under the same names, the
same files looked at and the same failure if there is one. Hence each module stands behind all
that it depends on, except for what leads back to it, be it through modules that a failure has
left unfinished. -/
theorem Built.recursion_iff_addEntry (h : Built p points g) (name : String) (path : Path) :
    (∀ outcome, Recursion p name nameReached g path outcome ↔
      outcome = g.addEntry p name path) ∧
    ∃ unfinished,
      (∀ m ∈ unfinished, ∃ before touched, p.load name m.path before = (touched, .ok m)) ∧
      ((∃ id, (g.addEntry p name path).2 = .ok id) → unfinished = []) ∧
      ∀ earlier m later, (g.addEntry p name path).1.modules = earlier ++ m :: later →
        ∀ d ∈ m.dependencies, Knows earlier d.id ∨
          Reaches ((g.addEntry p name path).1.modules ++ unfinished) d.id m.id := by
  have hrun := g.addEntry_recursion p name path
  have hreached := (hrun.nameReached (h.consistent name)).1
  refine ⟨fun outcome => ⟨fun ho => ho.deterministic hreached, fun ho => ho ▸ hreached⟩, ?_⟩
  obtain ⟨unfinished, hloaded, hnone, hordered⟩ :=
    hrun.ordered (h.consistent name).graph.sound h.ordered
  refine ⟨unfinished, hloaded, hnone, fun earlier m later hsplit d hd => ?_⟩
  rw [hsplit, bare_append] at hordered
  have hbehind : Behind [] _ ([] ++ bare earlier) m.bare := hordered.of_split
  rcases hbehind d hd with hk | hw | hr
  · exact .inl (knows_bare.mp hk)
  · simp at hw
  · exact .inr (hsplit ▸ hr)

/-- Where two modules depend on each other, the one that is asked for first is built last. -/
theorem Built.recursion_of_pair :
    let first := (Graph.empty.addEntry pair "m" ⟨"/a.js"⟩).1
    Built pair [("m", ⟨"/a.js"⟩)] first ∧ first.modules.map (·.id) = ["./b.js", "./a.js"] ∧
    Recursion pair "n" nameReached first ⟨"/b.js"⟩ (first.addEntry pair "n" ⟨"/b.js"⟩) := by
  intro first
  have hid : (Graph.empty.addEntry pair "m" ⟨"/a.js"⟩).2 = .ok "./a.js" := by decide +kernel
  have hbuilt : Built pair [("m", ⟨"/a.js"⟩)] first := Built.nothing.add (Prod.ext rfl hid)
  exact ⟨hbuilt, by decide +kernel, ((hbuilt.recursion_iff_addEntry "n" ⟨"/b.js"⟩).1 _).mpr rfl⟩

end Graph
end ModuleBundler
