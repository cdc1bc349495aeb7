import ModuleBundler.Bundle.Compilation
import ModuleBundler.Proofs.Analysis.Reference
import ModuleBundler.Proofs.Graph.Attribution

/-! A chunk has all that its script can ask for. -/
namespace ModuleBundler
open ModuleBundler.Graph

/-- The script of a chunk needs nothing but the modules of the chunk. -/
structure Chunk.SelfContained (p : Project) (s : Stats) (c : Chunk) : Prop where
  entry_mem : c.entry ∈ c.modules
  nodup : c.modules.Nodup
  /-- Its modules are all that have its name in the end, in the order in which they were built. -/
  modules_eq : c.modules = (s.modules.filter (·.hasName c.name)).map (·.id)
  closed : ∀ m ∈ s.modules, m.id ∈ c.modules → ∀ d ∈ m.dependencies, d.id ∈ c.modules
  /-- The text of each of its modules comes from edits of its file, and whatever a piece of
  these edits puts between quotes is the id of a module of the chunk. -/
  written : ∀ m ∈ s.modules, m.id ∈ c.modules → ∃ source analysis,
    p.read m.path = .ok (source, analysis) ∧
    Edit.apply (analysis.edits (m.dependencies.map (·.id))) source = .ok m.source ∧
    ∀ r ∈ analysis.replacements, ∀ i, Piece.id i ∈ r.pieces → ∃ id ∈ c.modules,
      (Piece.id i).render (m.dependencies.map (·.id)) = Text.quote id
  /-- Its script has a loader for each of its modules, and for no other. -/
  rendered : ∃ entry, s.module? c.entry = some entry ∧
    ⟨c.filename, Script.render entry (s.modules.filter (·.hasName c.name))⟩ ∈ s.assets

namespace Graph

variable {p : Project} {name other id : String} {path : Path} {g after : Graph}
  {points : List (String × Path)} {ms : List Module} {m : Module}

/-- An entry point leaves the modules of all other names as they are. -/
theorem reached_extends {ns : List Module} (h : Extends name ms ns) (hne : other ≠ name) :
    (ns.filter (·.hasName other)).map (·.id) = (ms.filter (·.hasName other)).map (·.id) := by
  obtain ⟨old, new, rfl, hold, hnew⟩ := h
  have hnone : new.filter (·.hasName other) = [] := by
    rw [List.filter_eq_nil_iff]
    intro m hm
    simp [Module.hasName, hnew m hm, hne]
  rw [List.filter_append, hnone, List.append_nil]
  induction hold with
  | nil => rfl
  | cons h _ ih =>
    rw [List.filter_cons, List.filter_cons, h.hasName_ne hne]
    split <;> simp [h.id_eq, ih]

/-- A module has the name of an entry point exactly if the entry point reaches it. -/
theorem Attributed.hasName_iff (h : Attributed p points g)
    (hn : (points.map (·.1)).Nodup) (hp : (name, path) ∈ points) (hm : m ∈ g.modules) :
    m.hasName name = true ↔ Reaches g.modules (p.idOf path) m.id := by
  rw [Module.hasName, h.names m hm, List.contains_iff_mem, reachingNames, List.mem_map]
  constructor
  · rintro ⟨⟨n, q⟩, hq, rfl⟩
    obtain ⟨hq, hr⟩ := List.mem_filter.mp hq
    obtain rfl : q = path := congrArg Prod.snd (List.inj_on_of_nodup_map hn hq hp rfl)
    simpa using hr
  · exact fun hr => ⟨(name, path), List.mem_filter.mpr ⟨hp, by simpa using hr⟩, rfl⟩

/-- A module is the only one of its id if ids are not used twice. -/
theorem find?_id_of_mem (hn : (ms.map (·.id)).Nodup) (hm : m ∈ ms) :
    ms.find? (·.id = m.id) = some m := by
  cases h : ms.find? (·.id = m.id) with
  | none => simpa using List.find?_eq_none.mp h m hm
  | some k =>
    have hid : k.id = m.id := by simpa using List.find?_some h
    rw [eq_of_id_eq hn (List.mem_of_find?_eq_some h) hm hid]

end Graph

theorem ok_of_mapError {ε δ α : Type} {f : ε → δ} {x : Except ε α} {a : α}
    (h : x.mapError f = .ok a) : x = .ok a := by
  cases x with
  | error e => simp [Except.mapError] at h
  | ok b => simpa [Except.mapError] using h

/-- What is read from a file is the analysis of a text that is a module. -/
theorem Project.read_ok {p : Project} {path : Path} {source : String} {a : Analysis}
    (h : p.read path = .ok (source, a)) :
    ∃ program, Program.parse source = .ok program ∧ Analysis.ofProgram program source = .ok a := by
  simp only [Project.read, bind, Except.bind, pure, Except.pure] at h
  split at h
  · simp at h
  split at h
  · simp at h
  split at h
  · simp at h
  next program hparse =>
  split at h
  · simp at h
  next analysis hanalysis =>
  simp only [Except.ok.injEq, Prod.mk.injEq] at h
  obtain ⟨rfl, rfl⟩ := h
  exact ⟨program, ok_of_mapError hparse, ok_of_mapError hanalysis⟩

namespace Compilation

variable {o : Options} {p : Project} {g after : Graph} {cs : List Chunk}
  {done points : List (String × Path)}

/-- The chunk of an entry point, in view of the modules that there are in the end. -/
structure Shows (p : Project) (points : List (String × Path)) (ms : List Module) (c : Chunk) :
    Prop where
  entered : ∃ path, (c.name, path) ∈ points ∧ c.entry = p.idOf path
  modules_eq : c.modules = (ms.filter (·.hasName c.name)).map (·.id)

/-- Chunks are there for the first entry point and for the others. -/
theorem chunks_cons_ok {name : String} {entry : Path} :
    chunks o p g ((name, entry) :: points) = (after, .ok cs) ↔ ∃ path next id others,
      p.resolver.resolveEntry o.context entry = .ok path ∧
      g.addEntry p name path = (next, .ok id) ∧
      chunks o p next points = (after, .ok others) ∧
      cs = ⟨name, id, (next.reached name).map (·.id), o.filenameFor name⟩ :: others := by
  constructor
  · intro h
    unfold chunks at h
    split at h
    · cases h
    next path hentry =>
    split at h
    · cases h
    next next id hadd =>
    dsimp only at h
    split at h
    · next hrest =>
      cases h
      exact ⟨path, next, id, _, hentry, hadd, hrest, rfl⟩
    · next hne => exact absurd h (hne _ _)
  · rintro ⟨path, next, id, others, hentry, hadd, hrest, rfl⟩
    unfold chunks
    rw [hentry]
    dsimp only
    rw [hadd]
    dsimp only
    rw [hrest]

/-- The entry points that are built later leave earlier chunks as they are. -/
theorem chunks_shows (hg : Attributed p done g)
    (hn : ((done ++ points).map (·.1)).Nodup) (h : chunks o p g points = (after, .ok cs)) :
    ∃ built, built.map (·.1) = points.map (·.1) ∧
      Attributed p (done ++ built) after ∧
      (∀ name ∈ done.map (·.1), (after.reached name).map (·.id) = (g.reached name).map (·.id)) ∧
      ∀ c ∈ cs, Shows p built after.modules c := by
  induction points generalizing g done cs with
  | nil =>
    have h : (g, Except.ok []) = (after, Except.ok cs) := h
    simp only [Prod.mk.injEq, Except.ok.injEq] at h
    obtain ⟨rfl, rfl⟩ := h
    exact ⟨[], rfl, by simpa using hg, fun _ _ => rfl, by simp⟩
  | cons point points ih =>
    obtain ⟨name, entry⟩ := point
    obtain ⟨path, g', id, others, -, hadd, hrest, rfl⟩ := chunks_cons_ok.mp h
    have hnew : name ∉ done.map (·.1) := by
      intro hmem
      rw [List.map_append, List.nodup_append] at hn
      exact hn.2.2 name hmem name (by simp) rfl
    have hg' := hg.add hnew hadd
    obtain ⟨hid, hextends⟩ := hg.extends hnew hadd
    have hn' : ((done ++ [(name, path)] ++ points).map (·.1)).Nodup := by simpa using hn
    obtain ⟨built, hbuilt, hafter, hkeep, hcs⟩ := ih hg' hn' hrest
    refine ⟨(name, path) :: built, by simp [hbuilt], by simpa using hafter, ?_, ?_⟩
    · intro other hother
      rw [hkeep other (by simp; exact .inl (by simpa using hother))]
      exact reached_extends hextends fun he => hnew (he ▸ hother)
    · intro c hc
      rcases List.mem_cons.mp hc with rfl | hc
      · refine ⟨⟨path, by simp, hid⟩, ?_⟩
        exact (hkeep name (by simp)).symm
      · obtain ⟨⟨path', hmem, hentry⟩, hmodules⟩ := hcs c hc
        exact ⟨⟨path', List.mem_cons_of_mem _ hmem, hentry⟩, hmodules⟩

/-- A chunk is rendered under a new name, unless its entry module is not there. -/
theorem assets_cons_ok {before : List String} {as : List Asset} {c : Chunk}
    (h : assets g before (c :: cs) = .ok as) : c.filename ∉ before ∧
    (g.find? c.entry = none ∧ assets g before cs = .ok as ∨
      ∃ entry rest, g.find? c.entry = some entry ∧
        assets g (c.filename :: before) cs = .ok rest ∧
        as = ⟨c.filename, Script.render entry (c.modules.filterMap g.find?)⟩ :: rest) := by
  unfold assets at h
  split at h
  · cases h
  next hnew =>
  refine ⟨hnew, ?_⟩
  split at h
  next hnone => exact .inl ⟨hnone, h⟩
  next entry hentry =>
  cases hrest : assets g (c.filename :: before) cs with
  | error e => simp [hrest, bind, Except.bind] at h
  | ok rest =>
    simp only [hrest, bind, Except.bind, pure, Except.pure, Except.ok.injEq] at h
    exact .inr ⟨entry, rest, hentry, rfl, h.symm⟩

/-- Every chunk whose entry module is there gets an asset. -/
theorem assets_mem {before : List String} {as : List Asset} {c : Chunk} {entry : Module}
    (h : assets g before cs = .ok as) (hc : c ∈ cs) (hentry : g.find? c.entry = some entry) :
    ⟨c.filename, Script.render entry (c.modules.filterMap g.find?)⟩ ∈ as := by
  induction cs generalizing before as with
  | nil => simp at hc
  | cons d ds ih =>
    obtain ⟨-, ⟨hnone, hrest⟩ | ⟨e, rest, he, hrest, rfl⟩⟩ := assets_cons_ok h
    · rcases List.mem_cons.mp hc with rfl | hc
      · simp [hentry] at hnone
      · exact ih hrest hc
    · rcases List.mem_cons.mp hc with rfl | hc
      · obtain rfl := Option.some.inj (hentry.symm.trans he)
        exact List.mem_cons_self
      · exact List.mem_cons_of_mem _ (ih hrest hc)

/-- No two assets have one name. -/
theorem assets_nodup {before : List String} {as : List Asset}
    (h : assets g before cs = .ok as) :
    (as.map (·.filename)).Nodup ∧ ∀ a ∈ as, a.filename ∉ before := by
  induction cs generalizing before as with
  | nil =>
    obtain rfl : [] = as := Except.ok.inj h
    simp
  | cons c cs ih =>
    obtain ⟨hnew, ⟨-, hrest⟩ | ⟨entry, rest, -, hrest, rfl⟩⟩ := assets_cons_ok h
    · exact ih hrest
    · obtain ⟨hnodup, hbefore⟩ := ih hrest
      constructor
      · rw [List.map_cons, List.nodup_cons, List.mem_map]
        refine ⟨?_, hnodup⟩
        rintro ⟨a, ha, hname⟩
        exact hbefore a ha (hname ▸ List.mem_cons_self)
      · intro a ha
        rcases List.mem_cons.mp ha with rfl | ha
        · exact hnew
        · exact fun hb => hbefore a ha (List.mem_cons_of_mem _ hb)

theorem filterMap_find? (hi : g.Indexed) {ms : List Module}
    (hs : ms ⊆ g.modules) : (ms.map (·.id)).filterMap g.find? = ms := by
  induction ms with
  | nil => rfl
  | cons m ms ih =>
    rw [List.map_cons, List.filterMap_cons, hi.find?_of_mem (hs List.mem_cons_self)]
    simp [ih fun k hk => hs (List.mem_cons_of_mem m hk)]

variable {t : FileTree} {files : PathSet} {s : Stats} {c : Chunk} {ms : List Module}

/-- What a pass that succeeds has gone through. -/
theorem build_ok (h : build o t = (files, .ok s)) :
    o.entry.validate = .ok () ∧ ∃ g as,
      chunks o (project o t) .empty o.entry.points = (g, .ok s.chunks) ∧
      assets g [] s.chunks = .ok as ∧
      s.modules = g.modules ∧ s.assets = sortAssets as := by
  unfold build at h
  split at h
  · simp at h
  · next hvalid =>
    split at h
    · simp at h
    · next g cs hchunks =>
      split at h
      · simp at h
      · next as hassets =>
        simp only [Prod.mk.injEq, Except.ok.injEq] at h
        obtain ⟨-, rfl⟩ := h
        exact ⟨hvalid, g, as, hchunks, hassets, rfl, rfl⟩

theorem empty_attributed : Attributed p [] .empty := Built.attributed .nothing List.nodup_nil

theorem Shows.mem_modules (h : Shows p points g.modules c) (hg : Attributed p points g)
    (hn : (points.map (·.1)).Nodup) {m : Module} (hm : m ∈ g.modules) :
    m.id ∈ c.modules ↔ Reaches g.modules c.entry m.id := by
  obtain ⟨path, hpath, hentry⟩ := h.entered
  rw [h.modules_eq, hentry, ← hg.hasName_iff hn hpath hm]
  constructor
  · intro hid
    obtain ⟨k, hk, hkid⟩ := List.mem_map.mp hid
    obtain ⟨hk, hkn⟩ := List.mem_filter.mp hk
    exact eq_of_id_eq hg.nodup hk hm hkid ▸ hkn
  · exact fun hmn => List.mem_map_of_mem (List.mem_filter.mpr ⟨hm, hmn⟩)

/-- If a pass succeeds, each of its chunks has its entry module, no module twice, all modules
that have its name in the end, and whatever the texts of its modules ask for. -/
theorem selfContained_of_build (h : build o t = (files, .ok s)) (hc : c ∈ s.chunks) :
    c.SelfContained (project o t) s := by
  obtain ⟨hvalid, g, as, hchunks, hassets, hmodules, hsorted⟩ := build_ok h
  obtain ⟨hne, hn⟩ := Entry.validate_eq_ok_iff.mp hvalid
  obtain ⟨built, hbuilt, hg, -, hshows⟩ :=
    chunks_shows empty_attributed (by simpa using hn) hchunks
  rw [List.nil_append] at hg
  rw [← hbuilt] at hn
  have hshow := hshows c hc
  obtain ⟨path, hpath, hentry⟩ := hshow.entered
  obtain ⟨entry, hmem, hid⟩ := hg.entered (c.name, path) hpath
  rw [← hentry] at hid
  have hclosed : ∀ m ∈ g.modules, m.id ∈ c.modules → ∀ d ∈ m.dependencies, d.id ∈ c.modules := by
    intro m hm hmc d hd
    obtain ⟨k, hk, hkd⟩ := hg.closed m hm d hd
    rw [hshow.mem_modules hg hn hm] at hmc
    rw [← hkd, hshow.mem_modules hg hn hk, hkd]
    exact hmc.tail ⟨m, hm, rfl, d, hd, rfl⟩
  constructor
  case entry_mem => exact hid ▸ (hshow.mem_modules hg hn hmem).mpr (hid ▸ .refl)
  case nodup =>
    rw [hshow.modules_eq]
    exact hg.nodup.sublist (List.filter_sublist.map _)
  case modules_eq => rw [hmodules]; exact hshow.modules_eq
  case closed => rw [hmodules]; exact hclosed
  case written =>
    rw [hmodules]
    intro m hm hmc
    obtain ⟨source, analysis, hread, hlength, happly⟩ := (hg.loaded m hm).written
    refine ⟨source, analysis, hread, happly, fun r hr i hi => ?_⟩
    have hlt : i < m.dependencies.length := by
      rw [hlength]
      obtain ⟨program, -, hanalysis⟩ := Project.read_ok hread
      exact Analysis.lt_of_mem_pieces hanalysis r hr i hi
    refine ⟨m.dependencies[i].id, hclosed m hm hmc _ (List.getElem_mem hlt), ?_⟩
    simp [Piece.render, List.getD, hlt]
  case rendered =>
    refine ⟨entry, ?_, ?_⟩
    · rw [Stats.module?, hmodules, ← hid]
      exact find?_id_of_mem hg.nodup hmem
    have hasset := assets_mem hassets hc (hid ▸ hg.indexed.find?_of_mem hmem)
    rw [hshow.modules_eq, filterMap_find? hg.indexed (List.filter_subset_self _)] at hasset
    rw [hsorted, hmodules]
    exact (List.mergeSort_perm as _).mem_iff.mpr hasset

/-- Two entry points that depend on each other. -/
def pairOptions : Options where
  packageMain _ := .ok none
  context := ⟨"/"⟩
  entry := .named [("m", ⟨"./a.js"⟩), ("n", ⟨"./b.js"⟩)]

theorem selfContained_of_pair : ∃ files s,
    build pairOptions pair.resolver.tree = (files, .ok s) ∧
    s.chunks.map (·.modules) = [["./b.js", "./a.js"], ["./b.js", "./a.js"]] ∧
    ∀ c ∈ s.chunks, c.SelfContained (project pairOptions pair.resolver.tree) s := by
  have hm : (build pairOptions pair.resolver.tree).2.toOption.map
      (fun s => s.chunks.map (·.modules)) =
      some [["./b.js", "./a.js"], ["./b.js", "./a.js"]] := by decide +kernel
  cases h : build pairOptions pair.resolver.tree with
  | mk files result =>
    rw [h] at hm
    cases result with
    | error e => simp [Except.toOption] at hm
    | ok s =>
      exact ⟨files, s, rfl, by simpa [Except.toOption] using hm,
        fun c hc => selfContained_of_build h hc⟩

end Compilation
end ModuleBundler
