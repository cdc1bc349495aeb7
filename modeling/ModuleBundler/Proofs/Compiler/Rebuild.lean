import ModuleBundler.Proofs.Bundle.Dependencies
import ModuleBundler.Proofs.Compiler.Course

/-! A change of a file that a pass looked at makes the next pass run, whether the pass failed or
not. -/
namespace ModuleBundler
open ModuleBundler.Graph

namespace PathSet

variable {s t : PathSet} {p q : Path}

theorem contains_of_mem (h : p ∈ s.toList) : s.contains p = true :=
  contains_iff.mpr ⟨p, h, beq_self_eq_true p⟩

theorem contains_ofList (ps : List Path) (q : Path) : (ofList ps).contains q = ps.contains q := by
  have hfoldl (s : PathSet) :
      (ps.foldl insert s).contains q = (s.contains q || ps.contains q) := by
    induction ps generalizing s with
    | nil => simp
    | cons p ps ih =>
      rw [List.foldl_cons, ih, contains_insert, List.contains_cons, Bool.or_comm (q == p),
        Bool.or_assoc]
  simpa [ofList] using hfoldl .empty

end PathSet

theorem Watcher.touch_keeps (w : Watcher) (p : Path) :
    (w.touch p).1.watched = w.watched ∧ w.pending ⊆ (w.touch p).1.pending ∧
      (w.watched.contains p = true → p ∈ (w.touch p).1.pending) := by
  unfold touch
  split <;> simp_all

/-- The backend does whatever it is asked for. -/
def Backend.Obliging (b : Backend) : Prop := ∀ n request, b.refuses n request = false

namespace Compiler

variable {before touched : PathSet} {changed : List Path} {r : Rearmed} {p q : Path}

namespace Rearmed

/-- A file is watched. -/
def Watches (r : Rearmed) (q : Path) : Prop := r.backend.watcher.watched.contains q = true

/-- Whatever is asked for is done, and the files that are believed to be watched are. -/
structure Honest (r : Rearmed) : Prop where
  obliging : r.backend.Obliging
  believed : ∀ q, r.watched.contains q = true → r.Watches q

theorem ask_eq (h : r.backend.Obliging) (request : WatchRequest) :
    r.ask request = ({ r with
      backend := { r.backend with
        requests := r.backend.requests + 1
        watcher := match request with
          | .watch p => r.backend.watcher.watch p
          | .unwatch p => r.backend.watcher.unwatch p }
      requests := r.requests ++ [request] }, true) := by
  unfold ask Backend.ask
  rw [h]
  cases request <;> rfl

theorem watches_release (h : r.backend.Obliging) :
    (r.release p).Watches q ↔ (q == p) = false ∧ r.Watches q := by
  simp [release, ask_eq h, Watches, Watcher.unwatch, PathSet.contains_erase]

theorem release_obliging (h : r.backend.Obliging) : (r.release p).backend.Obliging := by
  rw [release, ask_eq h]
  exact h

/-- Each file that is released was not looked at, so the others stay watched. -/
theorem watches_foldl_release {ps : List Path} (h : r.backend.Obliging)
    (hps : ∀ p ∈ ps, (q == p) = false) (hq : r.Watches q) :
    (ps.foldl release r).Watches q := by
  induction ps generalizing r with
  | nil => exact hq
  | cons p ps ih =>
    obtain ⟨hp, hps⟩ := List.forall_mem_cons.mp hps
    exact ih (release_obliging h) hps ((watches_release h).mpr ⟨hp, hq⟩)

theorem foldl_release (h : r.backend.Obliging) (ps : List Path) :
    (ps.foldl release r).backend.Obliging ∧ (ps.foldl release r).watched = r.watched := by
  induction ps generalizing r with
  | nil => exact ⟨h, rfl⟩
  | cons p ps ih => exact ih (release_obliging h)

/-- What is done for a file: nothing, or it is watched, perhaps after it has been released. -/
theorem arm_cases (h : r.backend.Obliging) (before : PathSet) (changed : List Path) (p : Path) :
    before.contains p = true ∧ arm before changed r p = { r with watched := r.watched.insert p } ∨
      ∃ r', (r' = r ∨ r' = r.release p) ∧
        arm before changed r p =
          { (r'.ask (.watch p)).1 with watched := (r'.ask (.watch p)).1.watched.insert p } := by
  unfold arm
  cases hb : before.contains p
  · exact .inr ⟨r, .inl rfl, by simp [ask_eq h]⟩
  cases hc : changed.contains p
  · exact .inl ⟨rfl, by simp⟩
  · exact .inr ⟨r.release p, .inr rfl, by simp [ask_eq (release_obliging h)]⟩

theorem ask_obliging (h : r.backend.Obliging) (request : WatchRequest) :
    (r.ask request).1.backend.Obliging := by
  rw [ask_eq h]
  exact h

theorem watches_ask (h : r.backend.Obliging) :
    (r.ask (.watch p)).1.Watches q ↔ (q == p) = true ∨ r.Watches q := by
  simp [ask_eq h, Watches, Watcher.watch, PathSet.contains_insert]

/-- A path is watched in every spelling. -/
theorem Watches.congr (h : r.Watches p) (hq : (q == p) = true) : r.Watches q :=
  (r.backend.watcher.watched.contains_congr hq).trans h

/-- A file that is to be watched is watched afterwards, and no other file has ceased to be. -/
theorem watches_arm (h : r.backend.Obliging) (hp : before.contains p = true → r.Watches p) :
    (arm before changed r p).Watches q ↔ (q == p) = true ∨ r.Watches q := by
  rcases arm_cases h before changed p with ⟨hb, harm⟩ | ⟨r', rfl | rfl, harm⟩ <;> rw [harm]
  · exact ⟨.inr, fun hq => hq.elim (hp hb).congr id⟩
  · exact watches_ask h
  · refine (watches_ask (release_obliging h)).trans ?_
    rw [watches_release h]
    cases hq : q == p <;> simp

theorem Honest.arm (h : r.Honest) (hp : before.contains p = true → r.Watches p) :
    (arm before changed r p).Honest := by
  have hwatched : (Rearmed.arm before changed r p).watched = r.watched.insert p ∧
      (Rearmed.arm before changed r p).backend.Obliging := by
    rcases arm_cases h.obliging before changed p with ⟨-, harm⟩ | ⟨r', rfl | rfl, harm⟩ <;>
      rw [harm]
    · exact ⟨rfl, h.obliging⟩
    · exact ⟨by rw [ask_eq h.obliging], ask_obliging h.obliging _⟩
    · have hrelease := release_obliging (p := p) h.obliging
      exact ⟨by rw [ask_eq hrelease, release, ask_eq h.obliging], ask_obliging hrelease _⟩
  refine ⟨hwatched.2, fun q hq => (watches_arm h.obliging hp).mpr ?_⟩
  rw [hwatched.1, PathSet.contains_insert, Bool.or_eq_true] at hq
  exact hq.imp_right (h.believed q)

/-- The files that a pass looked at are watched in the end. -/
theorem Honest.foldl_arm {ps : List Path} (h : r.Honest)
    (hps : ∀ p ∈ ps, before.contains p = true → r.Watches p) :
    (ps.foldl (Rearmed.arm before changed) r).Honest ∧
      ∀ q, r.Watches q ∨ ps.contains q = true →
        (ps.foldl (Rearmed.arm before changed) r).Watches q := by
  induction ps generalizing r with
  | nil => exact ⟨h, by simp⟩
  | cons p ps ih =>
    obtain ⟨hp, hps⟩ := List.forall_mem_cons.mp hps
    have hwatches (q : Path) :
        (Rearmed.arm before changed r p).Watches q ↔ (q == p) = true ∨ r.Watches q :=
      watches_arm h.obliging hp
    obtain ⟨hafter, hall⟩ := ih (h.arm hp) fun k hk hb => (hwatches k).mpr (.inr (hps k hk hb))
    refine ⟨hafter, fun q hq => hall q ?_⟩
    rw [List.contains_cons, Bool.or_eq_true] at hq
    rw [hwatches q]
    rcases hq with hq | hq | hq
    exacts [.inl (.inr hq), .inl (.inl hq), .inr hq]

end Rearmed

/-- After a pass that looked at files, all of them are watched. -/
theorem rearm_honest {b : Backend} (hb : b.Obliging)
    (hbefore : before.Within b.watcher.watched) :
    (rearm b before touched changed).Honest ∧
      ∀ q, touched.contains q = true → (rearm b before touched changed).Watches q := by
  unfold rearm
  split
  · next hempty =>
    have hnone : touched.toList = [] := by
      simpa [PathSet.isEmpty] using (Bool.and_eq_true_iff.mp hempty).1
    exact ⟨⟨hb, hbefore⟩, fun q hq => by simp [PathSet.contains, hnone] at hq⟩
  generalize hr : List.foldl Rearmed.release ⟨b, .empty, []⟩ (before.diff touched).toList = r
  obtain ⟨hobliging, hwatched⟩ :=
    Rearmed.foldl_release (r := ⟨b, .empty, []⟩) hb (before.diff touched).toList
  rw [hr] at hobliging hwatched
  have hkept (p : Path) (hp : p ∈ touched.toList) (hbp : before.contains p = true) :
      r.Watches p := by
    rw [← hr]
    -- what was released is not among the files that the pass looked at
    refine Rearmed.watches_foldl_release hb (fun d hd => ?_) (hbefore p hbp)
    have hd : touched.contains d = false := by simpa using (List.mem_filter.mp hd).2
    cases hpd : p == d
    · rfl
    · rw [← touched.contains_congr hpd, PathSet.contains_of_mem hp] at hd
      cases hd
  have hreleased : r.Honest := ⟨hobliging, by simp [hwatched]⟩
  obtain ⟨hhonest, hall⟩ := hreleased.foldl_arm hkept
  exact ⟨hhonest, fun q hq => hall q (.inr hq)⟩

/-- The files that a compiler believes to be watched are, by a backend that does what it is asked
for. -/
def Armed (c : Compiler) : Prop :=
  ∃ b, c.backend = some b ∧ b.Obliging ∧ c.watched.Within b.watcher.watched

/-- A change of a file is reported to a compiler. -/
def Hears (c : Compiler) (q : Path) : Prop :=
  ∃ b, c.backend = some b ∧ b.watcher.watched.contains q = true

variable {c : Compiler} {t : FileTree}

theorem Makes.touched_eq {touched : PathSet} {result : Except BundleError Stats}
    {after : FileTree} (h : c.Makes t touched result after) :
    (Compilation.build c.options t).1 = touched := by
  cases h with
  | unbuilt build | unwritten build | written build => rw [build]

/-- Reports make no difference to what is watched. -/
theorem Armed.pend (h : c.Armed) (pending : List Path) : (c.pend pending).Armed := by
  obtain ⟨b, hb, hobliging, hwithin⟩ := h
  exact ⟨_, backend_pend hb pending, hobliging, hwithin⟩

theorem Hears.pend {q : Path} (h : c.Hears q) (pending : List Path) :
    (c.pend pending).Hears q := by
  obtain ⟨b, hb, hwatched⟩ := h
  exact ⟨_, backend_pend hb pending, hwatched⟩

/-- After a pass the compiler hears of changes of the files that the pass looked at. -/
theorem Armed.passes {callback : Callback} {o : Outcome} (h : c.Armed)
    (hpass : c.Passes callback t changed o) : o.compiler.Armed ∧
      ∀ q, (Compilation.build c.options t).1.contains q = true → o.compiler.Hears q := by
  cases hpass with
  | @mk touched _ _ _ _ pending pending' _ armed _ _ _ _ makes hands arms fires taps =>
    rw [makes.touched_eq]
    obtain ⟨b, hb, hobliging, hwithin⟩ := h.pend pending
    let r := rearm b (c.pend pending).watched touched changed
    have hr : r.Honest ∧ ∀ q, touched.contains q = true → r.Watches q :=
      rearm_honest hobliging hwithin
    simp only [rearmed, hb, Prod.mk.injEq] at arms
    obtain ⟨rfl, -⟩ := arms
    have harmed : Armed { c.pend pending with
        backend := some r.backend, watched := r.watched, doneHook := c.doneHook.called } :=
      ⟨_, rfl, hr.1.obliging, hr.1.believed⟩
    refine ⟨harmed.pend pending', fun q hq => Hears.pend ?_ pending'⟩
    exact ⟨_, rfl, hr.2 q hq⟩

/-- Reports of changes are kept, and what is watched stays the same. -/
theorem backend_undergo {b : Backend} (hb : c.backend = some b) (t : FileTree)
    (batch : List Change) :
    ∃ b', (c.undergo t batch).1.backend = some b' ∧ b'.watcher.watched = b.watcher.watched ∧
      b.watcher.pending ⊆ b'.watcher.pending ∧
      ∀ q, .touch q ∈ batch → b.watcher.watched.contains q = true → q ∈ b'.watcher.pending := by
  induction batch generalizing c b t with
  | nil => exact ⟨b, hb, rfl, List.Subset.refl _, by simp⟩
  | cons change batch ih =>
    cases change with
    | touch p =>
      have htouch : (c.touch p).1.backend = some { b with watcher := (b.watcher.touch p).1 } := by
        simp [touch, hb]
      obtain ⟨b', hb', hwatched, hpending, hall⟩ := ih htouch t
      obtain ⟨hsame, hkept, hnew⟩ := b.watcher.touch_keeps p
      refine ⟨b', hb', hwatched.trans hsame, List.Subset.trans hkept hpending, fun q hq hqw => ?_⟩
      rcases List.mem_cons.mp hq with hq | hq
      · cases hq
        exact hpending (hnew hqw)
      · exact hall q hq (hsame ▸ hqw)
    | _ =>
      obtain ⟨b', hb', hwatched, hpending, hall⟩ := ih hb _
      exact ⟨b', hb', hwatched, hpending, fun q hq => hall q (by simpa using hq)⟩

/-- A batch with a change of a file that is heard of makes a pass run. -/
theorem Hears.reported (h : c.Hears q) (t : FileTree) {batch : List Change}
    (hq : .touch q ∈ batch) : ∃ r ∈ (c.undergo t batch).1.collect.2, (q == r) = true := by
  obtain ⟨b, hb, hwatched⟩ := h
  obtain ⟨b', hb', -, -, hall⟩ := backend_undergo hb t batch
  rw [collect, hb']
  apply PathSet.contains_iff.mp
  rw [PathSet.contains_ofList, List.contains_iff_exists_mem_beq]
  exact ⟨q, hall q hq hwatched, beq_self_eq_true q⟩

end Compiler

namespace Compilation

/-- The first of two entry points, without the file that it asks for. -/
def alone : FileTree := ⟨[(["a.js"], .file (some "require('./b')"))], []⟩

/-- A compiler that watches nothing yet. -/
def pairCompiler : Compiler where
  options := pairOptions
  runHook := { name := "run" }
  doneHook := { name := "done" }
  backend := some ⟨.empty, 0, fun _ _ => false⟩
  watched := .empty

end Compilation
end ModuleBundler
