import ModuleBundler.Proofs.Bundle.Chunk
import ModuleBundler.Proofs.Graph.Listing
import ModuleBundler.Proofs.Graph.Log

/-! The files that a pass looks at: after a success those of the modules, after a failure at least
those that were loaded and the one that the failure names. -/
namespace ModuleBundler
open ModuleBundler.Graph

theorem PathSet.contains_congr (files : PathSet) {q r : Path} (h : (q == r) = true) :
    files.contains q = files.contains r := by
  rw [Bool.eq_iff_iff, contains_iff, contains_iff]
  constructor
  · rintro ⟨path, hpath, hq⟩
    exact ⟨path, hpath, PartialEquivBEq.trans (PartialEquivBEq.symm h) hq⟩
  · rintro ⟨path, hpath, hr⟩
    exact ⟨path, hpath, PartialEquivBEq.trans h hr⟩

theorem Resolver.resolveEntry_error {r : Resolver} {context entry : Path} {e : ResolveError}
    (h : r.resolveEntry context entry = .error e) :
    ∃ attempted, e = .notFound entry.text none attempted := by
  unfold resolveEntry conclude at h
  split at h
  · cases h
  · cases h
    exact ⟨_, rfl⟩

namespace Compilation

variable {o : Options} {p : Project} {g after : Graph} {cs : List Chunk}
  {done points : List (String × Path)} {t : FileTree} {files : PathSet} {s : Stats}

section Log

/-- Builds the modules of entry points, and lists the files that are loaded for them. -/
def chunksLogged (o : Options) (p : Project) (g : Graph) :
    List (String × Path) → List Path × Graph × Except BundleError (List Chunk)
  | [] => ([], g, .ok [])
  | (name, entry) :: points =>
    match p.resolver.resolveEntry o.context entry with
    | .error e => ([], g, .error (.resolve e))
    | .ok path =>
      match g.addEntryLogged p name path with
      | (loads, g, .error e) => (loads, g, .error e)
      | (loads, g, .ok id) =>
        let chunk := ⟨name, id, (g.reached name).map (·.id), o.filenameFor name⟩
        match chunksLogged o p g points with
        | (others, g, .ok chunks) => (loads ++ others, g, .ok (chunk :: chunks))
        | (others, g, .error e) => (loads ++ others, g, .error e)

theorem chunksLogged_eq (o : Options) (p : Project) (g : Graph) (points : List (String × Path)) :
    (chunksLogged o p g points).2 = chunks o p g points := by
  induction points generalizing g with
  | nil => rfl
  | cons point points ih =>
    obtain ⟨name, entry⟩ := point
    unfold chunksLogged chunks
    rcases p.resolver.resolveEntry o.context entry with e | path
    · rfl
    dsimp only
    rw [← addEntryLogged_eq]
    rcases g.addEntryLogged p name path with ⟨loads, g, e | id⟩
    · rfl
    dsimp only
    rw [← ih g]
    rcases chunksLogged o p g points with ⟨others, after, e | chunks⟩ <;> rfl

theorem covers_chunksLogged (o : Options) (p : Project) (g : Graph)
    (points : List (String × Path)) :
    let r := chunksLogged o p g points
    Covers g.touched r.1 r.2.1.touched (r.2.2 = .error ·) := by
  induction points generalizing g with
  | nil =>
    unfold chunksLogged
    exact .nothing (.refl _) (by simp)
  | cons point points ih =>
    obtain ⟨name, entry⟩ := point
    unfold chunksLogged
    rcases hentry : p.resolver.resolveEntry o.context entry with e | path
    · obtain ⟨attempted, rfl⟩ := Resolver.resolveEntry_error hentry
      refine ⟨.refl _, by simp, ?_⟩
      rintro e ⟨⟩ path ⟨⟩
    have hadd := g.covers_addEntryLogged p name path
    dsimp only at hadd ⊢
    rcases hresult : g.addEntryLogged p name path with ⟨loads, g', e | id⟩
    · rw [hresult] at hadd
      exact hadd.imp (by simp)
    have hall := hadd.trans (ih (g.addEntryLogged p name path).2.1)
    rw [hresult] at hall
    revert hall
    dsimp only
    rcases chunksLogged o p g' points with ⟨others, after, e | chunks⟩ <;>
    exact fun hall => hall.imp (by simp)

/-- A pass, with the list of the files that are loaded in it, whether it fails or not. -/
def buildLogged (o : Options) (t : FileTree) : List Path × PathSet × Except BundleError Stats :=
  match o.entry.validate with
  | .error e => ([], .empty, .error (.config e))
  | .ok () =>
    match chunksLogged o (project o t) .empty o.entry.points with
    | (loads, g, .error e) => (loads, g.touched, .error e)
    | (loads, g, .ok cs) =>
      match assets g [] cs with
      | .error e => (loads, g.touched, .error e)
      | .ok as => (loads, g.touched, .ok ⟨cs, g.modules, sortAssets as, g.touched⟩)

theorem buildLogged_eq (o : Options) (t : FileTree) : (buildLogged o t).2 = build o t := by
  unfold buildLogged build
  rcases o.entry.validate with e | ⟨⟩
  · rfl
  dsimp only
  rw [← chunksLogged_eq]
  rcases chunksLogged o (project o t) .empty o.entry.points with ⟨loads, g, e | cs⟩
  · rfl
  dsimp only
  rcases assets g [] cs with e | as <;> rfl

/-- Chunks that cannot be rendered have nothing to do with a file that was read. -/
theorem assets_error {before : List String} {e : BundleError}
    (h : assets g before cs = .error e) : e.file? = none := by
  induction cs generalizing before e with
  | nil => cases h
  | cons c cs ih =>
    unfold assets at h
    split at h
    · cases h
      rfl
    split at h
    · exact ih h
    rcases Except.bind_eq_error.mp h with h | ⟨as, -, h⟩
    · exact ih h
    · cases h

theorem covers_buildLogged (o : Options) (t : FileTree) :
    let r := buildLogged o t
    Covers .empty r.1 r.2.1 (r.2.2 = .error ·) := by
  unfold buildLogged
  split
  · refine ⟨.refl _, by simp, ?_⟩
    rintro e ⟨⟩ path ⟨⟩
  have hchunks := covers_chunksLogged o (project o t) .empty o.entry.points
  revert hchunks
  dsimp only
  rcases chunksLogged o (project o t) .empty o.entry.points with ⟨loads, g, e | cs⟩
  · exact fun hchunks => hchunks.imp (by simp)
  dsimp only
  split
  · next e hassets =>
    refine fun hchunks => ⟨hchunks.kept, hchunks.loads, ?_⟩
    rintro d ⟨⟩ path hpath
    cases (assets_error hassets).symm.trans hpath
  · exact fun hchunks => hchunks.imp (by simp)

end Log

/-- What is built for entry points are the files that they mean. -/
theorem chunks_built (hg : Built p done g) (h : chunks o p g points = (after, .ok cs)) :
    ∃ built, Built p (done ++ built) after ∧ built.map (·.1) = points.map (·.1) ∧
      ∀ path, (∃ b ∈ built, b.2 = path) ↔
        ∃ point ∈ points, p.resolver.resolveEntry o.context point.2 = .ok path := by
  induction points generalizing g done cs with
  | nil =>
    cases h
    exact ⟨[], by simpa using hg, rfl, by simp⟩
  | cons point points ih =>
    obtain ⟨name, entry⟩ := point
    obtain ⟨path, g', id, others, hentry, hadd, hrest, rfl⟩ := chunks_cons_ok.mp h
    obtain ⟨built, hafter, hnames, hbuilt⟩ := ih (hg.add hadd) hrest
    refine ⟨(name, path) :: built, by simpa using hafter, by simp [hnames], fun q => ?_⟩
    simp only [List.exists_mem_cons_iff, hbuilt, hentry, Except.ok.injEq]

/-- A file that an entry point means. -/
def Entered (o : Options) (t : FileTree) (q : Path) : Prop :=
  ∃ point ∈ o.entry.points, ∃ path,
    (project o t).resolver.resolveEntry o.context point.2 = .ok path ∧ (q == path) = true

/-- After a success the files are those of the modules: those that the entry points mean and
those of the dependencies. -/
theorem files_of_build_ok (h : build o t = (files, .ok s)) :
    s.files = files ∧ ∀ q,
      (files.contains q = true ↔ ∃ m ∈ s.modules, (q == m.path) = true) ∧
      (files.contains q = true ↔ Entered o t q ∨ DependedOn s.modules q) := by
  obtain ⟨hvalid, g, as, hchunks, hassets, hmodules, -⟩ := build_ok h
  obtain ⟨hfiles, htouched⟩ : s.files = files ∧ files = g.touched := by
    simp only [build, hvalid, hchunks, hassets, Prod.mk.injEq, Except.ok.injEq] at h
    obtain ⟨rfl, hs⟩ := h
    exact ⟨hs ▸ rfl, rfl⟩
  rw [hmodules, htouched]
  refine ⟨hfiles.trans htouched, fun q => ?_⟩
  obtain ⟨-, hn⟩ := Entry.validate_eq_ok_iff.mp hvalid
  obtain ⟨built, hbuilt, hnames, hmeant⟩ := chunks_built .nothing hchunks
  rw [List.nil_append] at hbuilt
  have hfinds (b : String × Path) (hb : b ∈ built) : (project o t).Finds b.2 := by
    obtain ⟨point, -, hpoint⟩ := (hmeant b.2).mp ⟨b, hb, rfl⟩
    exact Project.finds_of_resolveEntry hpoint
  have hlisting := hbuilt.listing hfinds
  have hattributed := hbuilt.attributed (hnames ▸ hn)
  -- a file that goes by the name of a module is the file of the module
  have hknown (path : Path) (hpath : (project o t).Finds path)
      (hknows : Knows g.modules ((project o t).idOf path)) (hq : (q == path) = true) :
      ∃ m ∈ g.modules, (q == m.path) = true := by
    obtain ⟨m, hm, hid⟩ := hknows
    have hsame := hpath.beq_of_idOf (hlisting.listed m hm).file.1
      (hid.symm.trans (hattributed.loaded m hm).id_eq)
    exact ⟨m, hm, PartialEquivBEq.trans hq hsame⟩
  have hcause (hq : g.touched.contains q = true) : Entered o t q ∨ DependedOn g.modules q := by
    refine (hlisting.others q hq).imp_left ?_
    rintro ⟨b, hb, hqb⟩
    obtain ⟨point, hm, hpoint⟩ := (hmeant b.2).mp ⟨b, hb, rfl⟩
    exact ⟨point, hm, b.2, hpoint, hqb⟩
  have hmodule (hq : Entered o t q ∨ DependedOn g.modules q) :
      ∃ m ∈ g.modules, (q == m.path) = true := by
    rcases hq with ⟨point, hm, path, hpoint, hq⟩ | ⟨m, hm, d, hd, hq⟩
    · obtain ⟨b, hb, rfl⟩ := (hmeant path).mpr ⟨point, hm, hpoint⟩
      exact hknown b.2 (hfinds b hb) (hattributed.entered b hb) hq
    · refine hknown d.path ((hlisting.listed m hm).dependencies d hd).1 ?_ hq
      exact (hattributed.loaded m hm).labels d hd ▸ hattributed.closed m hm d hd
  have hlisted : (∃ m ∈ g.modules, (q == m.path) = true) → g.touched.contains q = true := by
    rintro ⟨m, hm, hq⟩
    rw [g.touched.contains_congr hq]
    exact (hlisting.listed m hm).file.2
  exact ⟨⟨fun hq => hmodule (hcause hq), hlisted⟩, hcause, fun hq => hlisted (hmodule hq)⟩

end Compilation
end ModuleBundler
