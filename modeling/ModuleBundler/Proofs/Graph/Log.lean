import ModuleBundler.Proofs.Bundle.Texts
import ModuleBundler.Proofs.Graph.Failure

/-! Walks that keep a list of the files they load. They are the walks without that list. -/
namespace ModuleBundler

namespace Walk

/-- Goes on to the end of the walk, or to the first failure, and lists the files that are loaded
on the way, the one that fails included. -/
def finishLogged (p : Project) (name : String) :
    (budget : Nat) → Walk → List Path × Graph × Option BundleError
  | budget, w =>
    match settle name w, budget with
    | (w, none), _ => ([], w.graph, none)
    | (w, some d), 0 => ([], w.graph, some (.read d.path .notFound))
    | (w, some d), budget + 1 =>
      match p.load name d.path w.graph.touched with
      | (touched, .error e) => ([d.path], { w.graph with touched }, some e)
      | (touched, .ok m) =>
        let (loads, result) := finishLogged p name budget (w.push m touched)
        (d.path :: loads, result)

variable {p : Project} {name : String}

theorem finishLogged_eq (budget : Nat) (w : Walk) :
    (finishLogged p name budget w).2 = finish p name budget w := by
  induction budget generalizing w with
  | zero =>
    unfold finishLogged finish
    rcases settle name w with ⟨walk, _ | d⟩ <;> rfl
  | succ budget ih =>
    unfold finishLogged finish
    rcases settle name w with ⟨walk, _ | d⟩
    · rfl
    dsimp only
    rcases p.load name d.path walk.graph.touched with ⟨touched, e | m⟩
    · rfl
    · exact ih _

end Walk

/-- What there is to say of the files that were looked at, whether there was a failure or not:
those that were listed before still are, and so is every file that was loaded, and the file that
a failure names. -/
structure Covers (before : PathSet) (loads : List Path) (after : PathSet)
    (fails : BundleError → Prop) : Prop where
  kept : before.Within after
  loads : ∀ path ∈ loads, after.contains path = true
  failure : ∀ e, fails e → ∀ path, e.file? = some path → after.contains path = true

namespace Covers

variable {before middle after : PathSet} {loads others : List Path}
  {fails fails' : BundleError → Prop}

theorem nothing (h : before.Within after) (hf : ∀ e, ¬fails e) : Covers before [] after fails :=
  ⟨h, by simp, fun e he => absurd he (hf e)⟩

/-- What was looked at before more files were. -/
theorem trans (h : Covers before loads middle fails') (h' : Covers middle others after fails) :
    Covers before (loads ++ others) after fails :=
  ⟨h.kept.trans h'.kept,
    List.forall_mem_append.mpr ⟨fun path hp => h'.kept path (h.loads path hp), h'.loads⟩,
    h'.failure⟩

theorem imp (h : Covers before loads after fails) (hf : ∀ e, fails' e → fails e) :
    Covers before loads after fails' :=
  ⟨h.kept, h.loads, fun e he => h.failure e (hf e he)⟩

/-- A file is loaded that was looked at before. -/
theorem load (p : Project) (name : String) {path : Path} {touched : PathSet}
    (h : touched.contains path = true) :
    Covers touched [path] (p.load name path touched).1
      ((p.load name path touched).2 = .error ·) := by
  have hwithin := (p.load_touched name path touched).1
  refine ⟨hwithin, by simpa using hwithin path h, fun e he q hq => ?_⟩
  rw [Project.file_of_load_error (Prod.ext rfl he) hq]
  exact hwithin path h

end Covers

namespace Walk

/-- A file was looked at before it is loaded. -/
theorem covers_finishLogged (p : Project) (name : String) (budget : Nat) {w : Walk}
    (h : Listed w.graph.touched w.stack) :
    let r := finishLogged p name budget w
    Covers w.graph.touched r.1 r.2.1.touched (r.2.2 = some ·) := by
  obtain ⟨hs, hd⟩ := settle_listed name h
  induction budget generalizing w with
  | zero =>
    rw [← settle_touched name w] at hd ⊢
    unfold finishLogged
    rcases hsettle : settle name w with ⟨walk, _ | d⟩
    · exact .nothing (.refl _) (by simp)
    · rw [hsettle] at hd
      refine ⟨.refl _, by simp, ?_⟩
      rintro e ⟨⟩ path ⟨⟩
      exact hd d rfl
  | succ budget ih =>
    rw [← settle_touched name w] at hs hd ⊢
    unfold finishLogged
    rcases hsettle : settle name w with ⟨walk, _ | d⟩
    · exact .nothing (.refl _) (by simp)
    rw [hsettle] at hs hd
    have hload := Covers.load p name (hd d rfl)
    obtain ⟨hwithin, hlisted⟩ := p.load_touched name d.path walk.graph.touched
    dsimp only at hs hload ⊢
    rcases hm : p.load name d.path walk.graph.touched with ⟨touched, e | m⟩
    · rw [hm] at hload
      exact hload.imp fun e he => by simpa using he
    · rw [hm] at hload hwithin hlisted
      have hall : Listed touched (walk.push m touched).stack :=
        (hs.mono hwithin).cons (hlisted m rfl)
      obtain ⟨hs, hd⟩ := settle_listed name hall
      exact hload.trans (ih hall hs hd)

end Walk

namespace Graph

/-- Adds an entry point, and lists the files that are loaded for it. -/
def addEntryLogged (g : Graph) (p : Project) (name : String) (path : Path) :
    List Path × Graph × Except BundleError String :=
  let g := g.touch path
  let id := p.idOf path
  if g.has id then ([], g.spreadName id name, .ok id)
  else
    match p.load name path g.touched with
    | (touched, .error e) => ([path], { g with touched }, .error e)
    | (touched, .ok m) =>
      match Walk.finishLogged p name p.resolver.tree.nodes.length
          (.start { g with touched } m) with
      | (loads, g, none) => (path :: loads, g, .ok id)
      | (loads, g, some e) => (path :: loads, g, .error e)

theorem addEntryLogged_eq (g : Graph) (p : Project) (name : String) (path : Path) :
    (g.addEntryLogged p name path).2 = g.addEntry p name path := by
  unfold addEntryLogged addEntry
  dsimp only
  split
  · rfl
  rcases p.load name path (g.touch path).touched with ⟨touched, e | m⟩
  · rfl
  dsimp only
  rw [← Walk.finishLogged_eq]
  rcases Walk.finishLogged p name p.resolver.tree.nodes.length
    (.start { g.touch path with touched } m) with ⟨loads, after, _ | e⟩ <;> rfl

theorem covers_addEntryLogged (g : Graph) (p : Project) (name : String) (path : Path) :
    let r := g.addEntryLogged p name path
    Covers g.touched r.1 r.2.1.touched (r.2.2 = .error ·) := by
  have htouch : Covers g.touched [] (g.touch path).touched (fun _ => False) :=
    .nothing (g.touched.within_insert path) (by simp)
  have hload := htouch.trans (Covers.load p name (g.touched.contains_insert_self path))
  have hlisted := (p.load_touched name path (g.touch path).touched).2
  unfold addEntryLogged
  dsimp only
  split
  · exact .nothing htouch.kept (by simp)
  rcases hm : p.load name path (g.touch path).touched with ⟨touched, e | m⟩
  · rw [hm] at hload
    exact hload.imp fun e he => by simpa using he
  rw [hm] at hload hlisted
  let w := Walk.start { g.touch path with touched } m
  have hall : Walk.Listed w.graph.touched w.stack :=
    Walk.Listed.cons (fun _ hf => by cases hf) (hlisted m rfl)
  have hwalk := hload.trans (Walk.covers_finishLogged p name p.resolver.tree.nodes.length hall)
  revert hwalk
  dsimp only
  rcases Walk.finishLogged p name p.resolver.tree.nodes.length w with ⟨loads, after, _ | e⟩ <;>
  exact fun hwalk => hwalk.imp (by simp)

end Graph
end ModuleBundler
