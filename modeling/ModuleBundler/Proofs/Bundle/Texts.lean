import ModuleBundler.Bundle.Compilation
import ModuleBundler.Proofs.FileTree.Shape

/-! Which texts a pass depends on: those of the files that it says it looked at, and the
descriptions of packages, which it does not list. -/
namespace ModuleBundler

namespace PathSet

/-- All paths of the first set are in the second, in some spelling. -/
def Within (s t : PathSet) : Prop := ∀ p, s.contains p = true → t.contains p = true

theorem Within.refl (s : PathSet) : s.Within s := fun _ => id

theorem Within.trans {s t u : PathSet} (h : s.Within t) (h' : t.Within u) : s.Within u :=
  fun p hp => h' p (h p hp)

theorem within_insert (s : PathSet) (p : Path) : s.Within (s.insert p) := by
  intro q hq
  simp [contains_insert, hq]

@[simp] theorem contains_insert_self (s : PathSet) (p : Path) : (s.insert p).contains p = true := by
  simp [contains_insert]

end PathSet

namespace Project

/-- Projects with the same names, rules and answers to requests. -/
structure Alike (p p' : Project) : Prop where
  context : p.context = p'.context
  rules : p.rules = p'.rules
  resolver : p.resolver.Alike p'.resolver

/-- Files have the same texts in two projects. -/
def SameTexts (p p' : Project) (files : PathSet) : Prop :=
  ∀ path, files.contains path = true →
    p.resolver.tree.readText path = p'.resolver.tree.readText path

variable {p p' : Project} {files touched : PathSet} {importer path : Path} {name : String}

theorem SameTexts.mono (h : p.SameTexts p' files) (hf : touched.Within files) :
    p.SameTexts p' touched :=
  fun path hpath => h path (hf path hpath)

theorem Alike.idOf (h : p.Alike p') (path : Path) : p.idOf path = p'.idOf path := by
  rw [Project.idOf, h.context, Project.idOf]

theorem Alike.answer (h : p.Alike p') (requests : List Request) :
    p.answer importer touched requests = p'.answer importer touched requests := by
  induction requests generalizing touched with
  | nil => rfl
  | cons request requests ih =>
    simp only [Project.answer, h.resolver.resolve, h.idOf, ih]

theorem Alike.read (h : p.Alike p')
    (htext : p.resolver.tree.readText path = p'.resolver.tree.readText path) :
    p.read path = p'.read path := by
  simp only [Project.read, htext, h.rules]

theorem Alike.load (h : p.Alike p')
    (htext : p.resolver.tree.readText path = p'.resolver.tree.readText path) :
    p.load name path touched = p'.load name path touched := by
  simp only [Project.load, h.read htext, h.answer, h.idOf]

/-- The files that answer requests are listed, behind those that were listed before. -/
theorem answer_touched (p : Project) (importer : Path) (touched : PathSet)
    (requests : List Request) :
    touched.Within (p.answer importer touched requests).1 ∧
    ∀ ds, (p.answer importer touched requests).2 = .ok ds →
      ∀ d ∈ ds, (p.answer importer touched requests).1.contains d.path = true := by
  induction requests generalizing touched with
  | nil => exact ⟨.refl _, fun ds hds => by simp [← Except.ok.inj hds]⟩
  | cons request requests ih =>
    unfold answer
    split
    · exact ⟨.refl _, fun ds hds => by cases hds⟩
    next path _ =>
    obtain ⟨hwithin, hlisted⟩ := ih (touched.insert path)
    have hbefore := (touched.within_insert path).trans hwithin
    have hpath := hwithin path (touched.contains_insert_self path)
    rcases hanswer : p.answer importer (touched.insert path) requests with ⟨files, e | ds⟩
    · rw [hanswer] at hbefore
      exact ⟨hbefore, fun ds hds => by cases hds⟩
    · rw [hanswer] at hbefore hpath hlisted
      refine ⟨hbefore, ?_⟩
      rintro _ ⟨⟩ d hd
      rcases List.mem_cons.mp hd with rfl | hd
      · exact hpath
      · exact hlisted ds rfl d hd

/-- The files of the dependencies of a module are listed once it is loaded. -/
theorem load_touched (p : Project) (name : String) (path : Path) (touched : PathSet) :
    touched.Within (p.load name path touched).1 ∧
    ∀ m, (p.load name path touched).2 = .ok m →
      ∀ d ∈ m.dependencies, (p.load name path touched).1.contains d.path = true := by
  unfold load
  split
  · exact ⟨.refl _, fun m hm => by cases hm⟩
  next source analysis _ =>
  obtain ⟨hwithin, hlisted⟩ := p.answer_touched path touched analysis.requests
  rcases hanswer : p.answer path touched analysis.requests with ⟨files, e | ds⟩
  · rw [hanswer] at hwithin
    exact ⟨hwithin, fun m hm => by cases hm⟩
  rw [hanswer] at hwithin hlisted
  dsimp only
  split
  · exact ⟨hwithin, fun m hm => by cases hm⟩
  · refine ⟨hwithin, ?_⟩
    rintro _ ⟨⟩
    exact hlisted ds rfl

end Project

namespace Walk
open Project

variable {p p' : Project} {name : String} {g : Graph} {stack : List Frame} {files : PathSet}
  {budget : Nat}

/-- The files that a walk will go to are listed. -/
def Listed (files : PathSet) (stack : List Frame) : Prop :=
  ∀ f ∈ stack, ∀ d ∈ f.ahead, files.contains d.path = true

theorem Listed.mono {after : PathSet} (h : Listed files stack) (hf : files.Within after) :
    Listed after stack :=
  fun f hfs d hd => hf d.path (h f hfs d hd)

theorem Listed.cons {f : Frame} (h : Listed files stack)
    (hf : ∀ d ∈ f.ahead, files.contains d.path = true) : Listed files (f :: stack) := by
  intro k hk
  rcases List.mem_cons.mp hk with rfl | hk
  · exact hf
  · exact h k hk

theorem Listed.tail {f : Frame} (h : Listed files (f :: stack)) : Listed files stack :=
  fun k hk => h k (List.mem_cons_of_mem f hk)

theorem Listed.skip {m : Module} {d : Dependency} {ahead : List Dependency}
    (h : Listed files (⟨m, d :: ahead⟩ :: stack)) : Listed files (⟨m, ahead⟩ :: stack) :=
  h.tail.cons fun k hk => h _ List.mem_cons_self k (List.mem_cons_of_mem d hk)

theorem settle_touched (name : String) (w : Walk) :
    (settle name w).1.graph.touched = w.graph.touched := by
  fun_induction settle name w with
  | case1 => rfl
  | case2 g m stack inProgress ih => exact ih
  | case3 g m d ahead stack inProgress hd ih => exact ih
  | case4 g m d ahead stack inProgress hd hw ih => exact ih
  | case5 => rfl

theorem settle_listed (name : String) {w : Walk} (h : Listed files w.stack) :
    Listed files (settle name w).1.stack ∧
    ∀ d, (settle name w).2 = some d → files.contains d.path = true := by
  fun_induction settle name w with
  | case1 => exact ⟨h, fun d hd => by cases hd⟩
  | case2 g m stack inProgress ih => exact ih h.tail
  | case3 g m d ahead stack inProgress hd ih => exact ih h.skip
  | case4 g m d ahead stack inProgress hd hw ih => exact ih h.skip
  | case5 g m d ahead stack =>
    refine ⟨h.skip, ?_⟩
    rintro _ ⟨⟩
    exact h _ List.mem_cons_self d List.mem_cons_self

theorem finish_touched (p : Project) (name : String) (budget : Nat) (w : Walk) :
    w.graph.touched.Within (finish p name budget w).1.touched := by
  induction budget generalizing w with
  | zero =>
    rw [← settle_touched name w]
    unfold finish
    rcases settle name w with ⟨walk, _ | d⟩ <;> exact .refl _
  | succ budget ih =>
    rw [← settle_touched name w]
    unfold finish
    rcases settle name w with ⟨walk, _ | d⟩
    · exact .refl _
    obtain ⟨hwithin, -⟩ := p.load_touched name d.path walk.graph.touched
    dsimp only
    rcases hload : p.load name d.path walk.graph.touched with ⟨files, e | m⟩
    · rw [hload] at hwithin
      exact hwithin
    · rw [hload] at hwithin
      exact hwithin.trans (ih (walk.push m files))

/-- A walk goes the same way in a project where the files that it lists have the same texts. -/
theorem finish_congr {w : Walk} (h : p.Alike p') (hl : Listed w.graph.touched w.stack)
    (ht : p.SameTexts p' (finish p name budget w).1.touched) :
    finish p name budget w = finish p' name budget w := by
  induction budget generalizing w with
  | zero =>
    unfold finish
    rcases settle name w with ⟨walk, _ | d⟩ <;> rfl
  | succ budget ih =>
    obtain ⟨hlisted, hnext⟩ := settle_listed name hl
    rw [← settle_touched name w] at hlisted hnext
    unfold finish at ht ⊢
    rcases hsettle : settle name w with ⟨walk, _ | d⟩
    · rfl
    rw [hsettle] at ht hlisted hnext
    obtain ⟨hwithin, hloaded⟩ := p.load_touched name d.path walk.graph.touched
    dsimp only at ht hlisted hnext ⊢
    have hd := hnext d rfl
    rcases hload : p.load name d.path walk.graph.touched with ⟨files, e | m⟩
    · rw [hload] at ht hwithin
      rw [← h.load (ht d.path (hwithin d.path hd)), hload]
    · rw [hload] at ht hwithin hloaded
      have hafter := finish_touched p name budget (walk.push m files)
      rw [← h.load (ht d.path (hafter d.path (hwithin d.path hd))), hload]
      exact ih ((hlisted.mono hwithin).cons (hloaded m rfl)) ht

end Walk

namespace Graph
open Project

variable {p p' : Project}

theorem addEntry_touched (p : Project) (g : Graph) (name : String) (path : Path) :
    (g.touched.insert path).Within (g.addEntry p name path).1.touched := by
  unfold addEntry
  dsimp only
  split
  · exact .refl _
  obtain ⟨hwithin, -⟩ := p.load_touched name path (g.touch path).touched
  rcases hload : p.load name path (g.touch path).touched with ⟨files, e | m⟩
  · rw [hload] at hwithin
    exact hwithin
  rw [hload] at hwithin
  have hfinish := Walk.finish_touched p name p.resolver.tree.nodes.length
    (.start { g.touch path with touched := files } m)
  dsimp only
  revert hfinish
  rcases Walk.finish p name p.resolver.tree.nodes.length
    (.start { g.touch path with touched := files } m) with ⟨after, _ | e⟩ <;>
  exact hwithin.trans

theorem addEntry_congr (h : p.Alike p') {g : Graph} {name : String} {path : Path}
    (ht : p.SameTexts p' (g.addEntry p name path).1.touched) :
    g.addEntry p name path = g.addEntry p' name path := by
  have htext := ht path (addEntry_touched p g name path path (g.touched.contains_insert_self path))
  have hlength : p.resolver.tree.nodes.length = p'.resolver.tree.nodes.length := by
    rw [← FileTree.shape_nodes_length, h.resolver.shape, FileTree.shape_nodes_length]
  unfold addEntry at ht ⊢
  dsimp only at ht ⊢
  rw [← h.idOf, ← h.load htext, ← hlength]
  split
  · rfl
  next hnew =>
  rw [if_neg hnew] at ht
  obtain ⟨hwithin, hloaded⟩ := p.load_touched name path (g.touch path).touched
  rcases hload : p.load name path (g.touch path).touched with ⟨files, e | m⟩
  · rfl
  rw [hload] at ht hloaded
  dsimp only at ht ⊢
  rw [Walk.finish_congr h]
  · exact Walk.Listed.cons (fun _ hf => by cases hf) (hloaded m rfl)
  · revert ht
    rcases Walk.finish p name p.resolver.tree.nodes.length
      (.start { g.touch path with touched := files } m) with ⟨after, _ | e⟩ <;>
    exact id

end Graph

namespace Compilation
open Project

variable {o : Options} {p p' : Project} {t t' : FileTree}

theorem chunks_touched (o : Options) (p : Project) (g : Graph) (points : List (String × Path)) :
    g.touched.Within (chunks o p g points).1.touched := by
  induction points generalizing g with
  | nil => exact .refl _
  | cons point points ih =>
    obtain ⟨name, entry⟩ := point
    unfold chunks
    split
    · exact .refl _
    next path _ =>
    have hadd := (g.touched.within_insert path).trans (g.addEntry_touched p name path)
    rcases hafter : g.addEntry p name path with ⟨after, e | entered⟩
    · rw [hafter] at hadd
      exact hadd
    rw [hafter] at hadd
    have hrest := hadd.trans (ih after)
    dsimp only
    revert hrest
    rcases chunks o p after points with ⟨last, e | cs⟩ <;> exact id

theorem chunks_congr (h : p.Alike p') {g : Graph} {points : List (String × Path)}
    (ht : p.SameTexts p' (chunks o p g points).1.touched) :
    chunks o p g points = chunks o p' g points := by
  induction points generalizing g with
  | nil => rfl
  | cons point points ih =>
    obtain ⟨name, entry⟩ := point
    unfold chunks at ht ⊢
    rw [← h.resolver.resolveEntry]
    split
    · rfl
    next path hentry =>
    rw [hentry] at ht
    dsimp only at ht
    rcases hadd : g.addEntry p name path with ⟨after, e | entered⟩
    · rw [hadd] at ht
      rw [← Graph.addEntry_congr h (hadd ▸ ht), hadd]
    · rw [hadd] at ht
      dsimp only at ht
      have hrest : p.SameTexts p' (chunks o p after points).1.touched := by
        revert ht
        rcases chunks o p after points with ⟨last, e | cs⟩ <;> exact id
      have hbefore := hrest.mono (chunks_touched o p after points)
      rw [← Graph.addEntry_congr h (hadd ▸ hbefore), hadd]
      dsimp only
      rw [ih hrest]

/-- A pass gives the same in a tree that differs only in the texts of files that it does not list
and that are no descriptions of packages. -/
theorem build_eq_of_texts (hshape : t.shape = t'.shape)
    (hlisted : ∀ path, (build o t).1.contains path = true → t.readText path = t'.readText path)
    (hdescriptions : ∀ package, t.readText (Resolver.description package)
      = t'.readText (Resolver.description package)) :
    build o t = build o t' := by
  have h : (project o t).Alike (project o t') := ⟨rfl, rfl, rfl, rfl, hshape, hdescriptions⟩
  unfold build at hlisted ⊢
  split
  · rfl
  next hvalid =>
  rw [hvalid] at hlisted
  dsimp only at hlisted
  have ht : (project o t).SameTexts (project o t')
      (chunks o (project o t) .empty o.entry.points).1.touched := by
    intro path hpath
    refine hlisted path ?_
    rcases hchunks : chunks o (project o t) .empty o.entry.points with ⟨g, e | cs⟩
    · rw [hchunks] at hpath
      exact hpath
    · rw [hchunks] at hpath
      dsimp only
      rcases assets g [] cs with e | as <;> exact hpath
  rw [chunks_congr h ht]

end Compilation
end ModuleBundler
