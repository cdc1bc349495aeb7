import ModuleBundler.Compiler.Basic
import ModuleBundler.Proofs.Bundle.Chunk
import ModuleBundler.Proofs.FileTree.Growth

/-! What there is to read after assets were written: at each place the last asset that was written
there. The names of assets are all different, but different names may lead to one place. -/
namespace ModuleBundler

/-- The path that an asset is written to. -/
def Asset.path (directory : Path) (a : Asset) : Path := directory.push ⟨a.filename⟩

namespace FileTree

variable {t after : FileTree} {p q : Path} {l : Location} {text : String}

/-- Two paths lead to different places. -/
def Apart (t : FileTree) (p q : Path) : Prop :=
  ∀ l found, t.place true p = .ok ⟨l, found⟩ → ∀ other, t.place true q ≠ .ok ⟨l, other⟩

theorem readText_of_place (h : t.place true p = .ok ⟨l, some (.file (some text))⟩) :
    t.readText p = .ok text := by
  simp [readText, find, h]

end FileTree

namespace Compilation

theorem filenames_nodup {o : Options} {t : FileTree} {files : PathSet} {s : Stats}
    (h : build o t = (files, .ok s)) : (s.assets.map (·.filename)).Nodup := by
  obtain ⟨-, g, as, -, hassets, -, hsorted⟩ := build_ok h
  rw [hsorted, sortAssets, ((List.mergeSort_perm as _).map _).nodup_iff]
  exact (assets_nodup hassets).1

end Compilation

namespace Compiler
open FileTree

variable {directory : Path} {t after : FileTree} {a : Asset} {as bs : List Asset} {l : Location}

/-- An asset is written below its directory, which is created for it, and then the others. -/
theorem emit_cons (ht : t.Rooted) (h : emit directory t (a :: as) = (after, none)) :
    ∃ t₁ t₂, t.Adds t₁ ∧
      t₁.writeFile (a.path directory) (some a.text) = .ok t₂ ∧
      emit directory t₂ as = (after, none) := by
  unfold emit at h
  dsimp only at h
  split at h
  · cases h
  next hblocked =>
  split at h
  · cases h
  next t₂ hwrite =>
  refine ⟨_, t₂, ?_, hwrite, h⟩
  split
  · exact createAll_adds ht
  · exact ht.adds

theorem emit_grows (ht : t.Rooted) (h : emit directory t as = (after, none)) :
    after.Rooted ∧ t.Grows after := by
  induction as generalizing t with
  | nil =>
    obtain rfl : t = after := congrArg Prod.fst h
    exact ⟨ht, .refl t⟩
  | cons a as ih =>
    obtain ⟨t₁, t₂, hadds, hwrite, hrest⟩ := emit_cons ht h
    obtain ⟨l, hwrote⟩ := writeFile_ok hadds.rooted hwrite
    obtain ⟨hrooted, hgrows⟩ := ih hwrote.rooted hrest
    exact ⟨hrooted, (hadds.grows.trans hwrote.grows).trans hgrows⟩

/-- A file stays as it is while assets are written to other places. -/
theorem emit_keeps {text : Option String} (ht : t.Rooted)
    (h : emit directory t as = (after, none)) (hl : t.node? l = some (.file text))
    (hothers : ∀ a ∈ as, ∀ found, after.place true (a.path directory) ≠ .ok ⟨l, found⟩) :
    after.node? l = some (.file text) := by
  induction as generalizing t with
  | nil =>
    obtain rfl : t = after := congrArg Prod.fst h
    exact hl
  | cons a as ih =>
    obtain ⟨t₁, t₂, hadds, hwrite, hrest⟩ := emit_cons ht h
    obtain ⟨m, hwrote⟩ := writeFile_ok hadds.rooted hwrite
    obtain ⟨-, hgrows⟩ := emit_grows hwrote.rooted hrest
    have hm : m ≠ l := by
      rintro rfl
      exact hothers a List.mem_cons_self _ (hwrote.leads_later hgrows)
    refine ih hwrote.rooted hrest ?_ fun b hb => hothers b (List.mem_cons_of_mem a hb)
    rw [hwrote.others l hm.symm]
    exact hadds.kept hl

/-- An asset can be read where it was written, unless a later one was written there. -/
theorem readText_of_emit (ht : t.Rooted) (h : emit directory t (bs ++ a :: as) = (after, none))
    (hlater : ∀ b ∈ as, after.Apart (a.path directory) (b.path directory)) :
    after.readText (a.path directory) = .ok a.text := by
  induction bs generalizing t with
  | nil =>
    obtain ⟨t₁, t₂, hadds, hwrite, hrest⟩ := emit_cons ht h
    obtain ⟨l, hwrote⟩ := writeFile_ok hadds.rooted hwrite
    obtain ⟨-, hgrows⟩ := emit_grows hwrote.rooted hrest
    have hplace := hwrote.leads_later hgrows
    have hnode := emit_keeps hwrote.rooted hrest hwrote.node_eq fun b hb =>
      hlater b hb l _ hplace
    exact readText_of_place (hnode ▸ hplace)
  | cons b bs ih =>
    obtain ⟨t₁, t₂, hadds, hwrite, hrest⟩ := emit_cons ht h
    obtain ⟨l, hwrote⟩ := writeFile_ok hadds.rooted hwrite
    exact ih hwrote.rooted hrest

/-- If the names of the assets of a pass lead to different places, none of them is lost. -/
theorem readText_of_buildAndEmit {c : Compiler} {files : PathSet} {s : Stats} (ht : t.Rooted)
    (h : c.buildAndEmit t = (after, files, .ok s))
    (hapart : (s.assets.map (·.path c.options.outputDirectory)).Pairwise after.Apart) :
    ∀ a ∈ s.assets, after.readText (a.path c.options.outputDirectory) = .ok a.text := by
  unfold buildAndEmit at h
  split at h
  · simp at h
  next stats hbuild =>
  split at h
  · simp at h
  next hemit =>
  simp only [Prod.mk.injEq, Except.ok.injEq] at h
  obtain ⟨rfl, rfl, rfl⟩ := h
  intro a ha
  obtain ⟨before, later, hassets⟩ := List.append_of_mem ha
  rw [hassets] at hemit hapart
  rw [List.map_append, List.map_cons, List.pairwise_append, List.pairwise_cons] at hapart
  exact readText_of_emit ht hemit fun b hb => hapart.2.1.1 _ (List.mem_map_of_mem hb)

/-- Of two names for one place, the later one keeps it. -/
example : (emit ⟨"/dist"⟩ .empty [⟨"./x.js", "first"⟩, ⟨"x.js", "last"⟩]).1.readText
    ⟨"/dist/./x.js"⟩ = .ok "last" := by decide +kernel

end Compiler
end ModuleBundler
