import ModuleBundler.Proofs.Compiler.Course
import ModuleBundler.Proofs.Compiler.Rebuild

/-! What a compiler believes to be watched, and what is, whatever its watcher refuses. All that is
asked for after a pass is looked at file by file: the requests for one file change nothing for
another. -/
namespace ModuleBundler

/-- The file that a request is about. -/
def WatchRequest.path : WatchRequest → Path
  | .watch p | .unwatch p => p

/-- Whether the file is to be watched. -/
def WatchRequest.isWatch : WatchRequest → Bool
  | .watch _ => true
  | .unwatch _ => false

/-- A request, and whether it was done. -/
abbrev Answer := WatchRequest × Bool

/-- The requests that are next, each with what the backend does about it. -/
def Backend.answers (b : Backend) (requests : List WatchRequest) : List Answer :=
  (requests.zipIdx b.requests).map fun r => (r.1, !b.refuses r.2 r.1)

theorem Backend.contains_ask (b : Backend) (request : WatchRequest) (q : Path) :
    (b.ask request).1.watcher.watched.contains q =
      if (b.ask request).2 && q == request.path then request.isWatch
      else b.watcher.watched.contains q := by
  cases request with
  | watch p =>
    cases hq : q == p <;> cases hb : b.refuses b.requests (.watch p) <;>
      simp [ask, hb, hq, WatchRequest.path, WatchRequest.isWatch, Watcher.watch,
        PathSet.contains_insert]
  | unwatch p =>
    cases hq : q == p <;> cases hb : b.refuses b.requests (.unwatch p) <;>
      simp [ask, hb, hq, WatchRequest.path, WatchRequest.isWatch, Watcher.unwatch,
        PathSet.contains_erase]

/-- The answers about a file. -/
def about (q : Path) (asked : List Answer) : List Answer := asked.filter fun a => q == a.1.path

/-- How a file stands: whether it is believed to be watched, and whether it is. -/
@[ext] structure Standing where
  believed : Bool
  watched : Bool

/-- One file after a pass: whether the pass looked at it, how it stood before, what was asked about
it, and how it stands. -/
inductive Tended : Bool → Standing → List Answer → Standing → Prop
  | absent (watched : Bool) : Tended false ⟨false, watched⟩ [] ⟨false, watched⟩
  | released (p : Path) (watched done : Bool) :
      Tended false ⟨true, watched⟩ [(.unwatch p, done)] ⟨false, !done && watched⟩
  | kept (watched : Bool) : Tended true ⟨true, watched⟩ [] ⟨true, watched⟩
  | renewed (p : Path) (watched released done : Bool) :
      Tended true ⟨true, watched⟩ [(.unwatch p, released), (.watch p, done)]
        ⟨done, done || (!released && watched)⟩
  | begun (p : Path) (watched done : Bool) :
      Tended true ⟨false, watched⟩ [(.watch p, done)] ⟨done, done || watched⟩

namespace Tended

variable {touched : Bool} {before after : Standing} {asked : List Answer}

/-- A file that is believed to be watched is watched. -/
theorem watched (h : Tended touched before asked after)
    (hbefore : before.believed = true → before.watched = true) (hafter : after.believed = true) :
    after.watched = true := by
  cases h with
  | absent | released => cases hafter
  | kept => exact hbefore rfl
  | renewed | begun => exact Bool.or_eq_true_iff.mpr (.inl hafter)

/-- As long as no release is refused, a file that is watched is believed to be. -/
theorem believed (h : Tended touched before asked after)
    (hasked : ∀ p, (WatchRequest.unwatch p, false) ∉ asked)
    (hbefore : before.watched = true → before.believed = true) (hafter : after.watched = true) :
    after.believed = true := by
  cases h with
  | absent => exact hbefore hafter
  | released p watched done => cases done <;> simp_all
  | kept => rfl
  | renewed p watched released done => cases released <;> simp_all
  | begun p watched done => cases done <;> simp_all

/-- A file that is not watched although the pass looked at it was refused. -/
theorem refused (h : Tended true before asked after) (hafter : after.believed = false) :
    ∃ p, (WatchRequest.watch p, false) ∈ asked := by
  cases h with
  | kept => cases hafter
  | renewed p _ released done =>
    cases hafter
    exact ⟨p, List.mem_cons_of_mem _ List.mem_cons_self⟩
  | begun p _ done =>
    cases hafter
    exact ⟨p, List.mem_cons_self⟩

/-- A file that was not watched is asked for by a pass that looks at it. -/
theorem attempted (h : Tended true before asked after) (hbefore : before.believed = false) :
    ∃ p done, (WatchRequest.watch p, done) ∈ asked := by
  cases h with
  | kept | renewed => cases hbefore
  | begun p _ done => exact ⟨p, done, List.mem_cons_self⟩

theorem not_believed (h : Tended false before asked after) : after.believed = false := by
  cases h <;> rfl

/-- If nothing is refused, then exactly the files that the pass looked at are watched. -/
theorem believed_eq (h : Tended touched before asked after)
    (hasked : ∀ a ∈ asked, a.2 = true) : after.believed = touched := by
  cases h <;> simp_all

end Tended

namespace PathSet

variable {s : PathSet} {p q : Path}

/-- No two paths of a set are spellings of one. -/
theorem distinct (s : PathSet) : s.toList.Pairwise fun p q => (p == q) = false :=
  s.sorted.imp fun {p q} hlt => by
    cases h : p == q
    · rfl
    · rw [Path.compare_eq_eq_iff.mpr h] at hlt
      cases hlt

theorem contains_eq_false_iff : s.contains q = false ↔ ∀ p ∈ s.toList, (q == p) = false := by
  rw [← Bool.not_eq_true, contains_iff]
  simp

theorem contains_diff (s t : PathSet) (q : Path) :
    (s.diff t).contains q = (s.contains q && !t.contains q) := by
  rw [Bool.eq_iff_iff]
  simp only [contains_iff, diff, filter, List.mem_filter, Bool.and_eq_true, Bool.not_eq_true']
  constructor
  · rintro ⟨p, ⟨hp, ht⟩, hqp⟩
    exact ⟨⟨p, hp, hqp⟩, (t.contains_congr hqp).trans ht⟩
  · rintro ⟨⟨p, hp, hqp⟩, ht⟩
    exact ⟨p, ⟨hp, (t.contains_congr hqp).symm.trans ht⟩, hqp⟩

end PathSet

namespace Compiler.Rearmed

variable {b : Backend} {r : Rearmed} {before : PathSet} {changed : List Path} {p q : Path}

/-- What has been asked for since the backend was in a state has been counted. -/
structure Since (b : Backend) (r : Rearmed) : Prop where
  refuses : r.backend.refuses = b.refuses
  requests : r.backend.requests = b.requests + r.requests.length

/-- What there is to say about one file: what was asked about it, and how it stands. -/
def view (b : Backend) (q : Path) (r : Rearmed) : List Answer × Standing :=
  (about q (b.answers r.requests),
    ⟨r.watched.contains q, r.backend.watcher.watched.contains q⟩)

theorem ask_since (h : r.Since b) (request : WatchRequest) : (r.ask request).1.Since b := by
  have hcounts : (r.backend.ask request).1.refuses = r.backend.refuses ∧
      (r.backend.ask request).1.requests = r.backend.requests + 1 := by
    unfold Backend.ask
    split
    · exact ⟨rfl, rfl⟩
    · cases request <;> exact ⟨rfl, rfl⟩
  refine ⟨hcounts.1.trans h.refuses, ?_⟩
  rw [ask, hcounts.2, h.requests, List.length_append, List.length_singleton, Nat.add_assoc]

theorem answers_ask (h : r.Since b) (request : WatchRequest) :
    b.answers (r.ask request).1.requests
      = b.answers r.requests ++ [(request, (r.ask request).2)] := by
  have hdone : (r.backend.ask request).2 = !b.refuses (b.requests + r.requests.length) request := by
    rw [← h.refuses, ← h.requests]
    unfold Backend.ask
    split <;> cases request <;> simp_all
  simp [ask, Backend.answers, List.zipIdx_append, hdone]

/-- A request changes nothing for another file. -/
theorem view_ask_other (h : r.Since b) (request : WatchRequest)
    (hq : (q == request.path) = false) :
    (r.ask request).1.view b q = r.view b q := by
  rw [view, answers_ask h]
  refine Prod.ext ?_ (Standing.ext rfl ?_)
  · simp [view, about, hq]
  · refine (r.backend.contains_ask request q).trans ?_
    rw [hq, Bool.and_false]
    rfl

/-- If a request is done, then a file is watched or not, as it was asked for. -/
theorem view_ask (h : r.Since b) (request : WatchRequest) (hq : (q == request.path) = true) :
    (r.ask request).1.view b q =
      ((r.view b q).1 ++ [(request, (r.ask request).2)],
        ⟨(r.view b q).2.believed,
          if (r.ask request).2 then request.isWatch else (r.view b q).2.watched⟩) := by
  rw [view, answers_ask h]
  refine Prod.ext ?_ (Standing.ext rfl ?_)
  · simp [view, about, hq]
  · refine (r.backend.contains_ask request q).trans ?_
    rw [hq, Bool.and_true]
    rfl

/-- A step that is taken for one file after the other, and changes nothing for another file. -/
structure Local (b : Backend) (step : Rearmed → Path → Rearmed) : Prop where
  since : ∀ r p, Since b r → Since b (step r p)
  frame : ∀ r p q, Since b r → (q == p) = false → (step r p).view b q = r.view b q

namespace Local

variable {step : Rearmed → Path → Rearmed} {ps : List Path}

theorem foldl_since (h : Local b step) (hr : r.Since b) (ps : List Path) :
    (ps.foldl step r).Since b := by
  induction ps generalizing r with
  | nil => exact hr
  | cons p ps ih => exact ih (h.since r p hr)

/-- Nothing changes for a file that is not among those for which a step is taken. -/
theorem foldl_frame (h : Local b step) (hr : r.Since b) (hps : ∀ p ∈ ps, (q == p) = false) :
    (ps.foldl step r).view b q = r.view b q := by
  induction ps generalizing r with
  | nil => rfl
  | cons p ps ih =>
    obtain ⟨hp, hps⟩ := List.forall_mem_cons.mp hps
    rw [List.foldl_cons, ih (h.since r p hr) hps, h.frame r p q hr hp]

/-- If all files are different, then one step is taken for each of them. -/
theorem foldl_view (h : Local b step) (hr : r.Since b)
    (hps : ps.Pairwise fun p q => (p == q) = false) (hp : p ∈ ps) (hqp : (q == p) = true) :
    ∃ r', r'.Since b ∧ r'.view b q = r.view b q ∧
      (ps.foldl step r).view b q = (step r' p).view b q := by
  obtain ⟨before, after, rfl⟩ := List.append_of_mem hp
  rw [List.pairwise_append, List.pairwise_cons] at hps
  obtain ⟨-, ⟨hafter, -⟩, hbefore⟩ := hps
  have hother (p' : Path) (h : (p' == p) = false) : (q == p') = false := by
    cases hqp' : q == p'
    · rfl
    · rw [PartialEquivBEq.trans (PartialEquivBEq.symm hqp') hqp] at h
      cases h
  have hr' := h.foldl_since hr before
  refine ⟨before.foldl step r, hr', h.foldl_frame hr fun p' hp' =>
    hother p' (hbefore p' hp' p List.mem_cons_self), ?_⟩
  rw [List.foldl_append, List.foldl_cons]
  exact h.foldl_frame (h.since _ p hr') fun p' hp' =>
    hother p' (BEq.comm.trans (hafter p' hp'))

end Local

theorem local_release (b : Backend) : Local b release where
  since _ _ h := ask_since h _
  frame _ _ _ h hq := view_ask_other h _ hq

/-- After its release a file is not watched, unless that was refused. -/
theorem view_release (h : r.Since b) (hqp : (q == p) = true) :
    ∃ done, (r.release p).view b q =
      ((r.view b q).1 ++ [(.unwatch p, done)],
        ⟨(r.view b q).2.believed, !done && (r.view b q).2.watched⟩) := by
  refine ⟨(r.ask (.unwatch p)).2, ?_⟩
  rw [release, view_ask h (.unwatch p) hqp]
  generalize (r.ask (.unwatch p)).2 = done
  cases done <;> rfl

/-- Asks for a file to be watched, and believes it to be if it is. -/
def begin (r : Rearmed) (p : Path) : Rearmed :=
  let (r, done) := r.ask (.watch p)
  if done then { r with watched := r.watched.insert p } else r

theorem local_begin (b : Backend) : Local b begin where
  since _ p h := by
    have hask := ask_since h (.watch p)
    unfold begin
    dsimp only
    split
    · exact ⟨hask.refuses, hask.requests⟩
    · exact hask
  frame r p q h hq := by
    rw [← view_ask_other h (.watch p) hq, begin]
    rcases r.ask (.watch p) with ⟨r', done⟩
    cases done
    · rfl
    · simp [view, PathSet.contains_insert, hq]

theorem view_begin (h : r.Since b) (hqp : (q == p) = true) :
    ∃ done, (r.begin p).view b q =
      ((r.view b q).1 ++ [(.watch p, done)],
        ⟨done || (r.view b q).2.believed, done || (r.view b q).2.watched⟩) := by
  have hask := view_ask h (.watch p) hqp
  unfold begin
  rcases hr : r.ask (.watch p) with ⟨r', done⟩
  rw [hr] at hask
  refine ⟨done, ?_⟩
  cases done
  · exact hask
  · have hasked := congrArg Prod.fst hask
    have hwatched := congrArg (·.2.watched) hask
    refine Prod.ext hasked (Standing.ext ?_ hwatched)
    simp [view, PathSet.contains_insert, hqp]

/-- What is done for a file that a pass looked at. -/
theorem arm_eq (before : PathSet) (changed : List Path) (r : Rearmed) (p : Path) :
    arm before changed r p =
      if before.contains p then
        if changed.contains p then (r.release p).begin p
        else { r with watched := r.watched.insert p }
      else r.begin p := by
  unfold arm
  cases before.contains p <;> cases changed.contains p <;> rfl

theorem local_arm (b : Backend) (before : PathSet) (changed : List Path) :
    Local b (arm before changed) where
  since r p h := by
    rw [arm_eq]
    split
    · split
      · exact (local_begin b).since _ p ((local_release b).since r p h)
      · exact ⟨h.refuses, h.requests⟩
    · exact (local_begin b).since r p h
  frame r p q h hq := by
    rw [arm_eq]
    split
    · split
      · rw [(local_begin b).frame _ p q ((local_release b).since r p h) hq,
          (local_release b).frame r p q h hq]
      · simp [view, PathSet.contains_insert, hq]
    · exact (local_begin b).frame r p q h hq

/-- A file that the pass looked at, about which nothing has been asked yet. -/
theorem tended_arm (h : r.Since b) (hqp : (q == p) = true) {watched : Bool}
    (hview : r.view b q = ([], ⟨false, watched⟩)) :
    let v := (arm before changed r p).view b q
    Tended true ⟨before.contains q, watched⟩ v.1 v.2 := by
  rw [arm_eq, ← before.contains_congr hqp]
  split
  · next hbefore =>
    rw [hbefore]
    split
    · obtain ⟨released, hrelease⟩ := view_release h hqp
      obtain ⟨done, hbegin⟩ := view_begin ((local_release b).since r p h) hqp
      rw [hbegin, hrelease, hview]
      simpa using Tended.renewed p watched released done
    · have hkept : ({ r with watched := r.watched.insert p } : Rearmed).view b q
          = ([], ⟨true, watched⟩) := by
        simp only [view, Prod.mk.injEq, Standing.mk.injEq] at hview ⊢
        simp [PathSet.contains_insert, hqp, hview]
      rw [hkept]
      exact .kept watched
  · next hbefore =>
    obtain ⟨done, hbegin⟩ := view_begin h hqp
    rw [Bool.not_eq_true] at hbefore
    rw [hbegin, hview, hbefore]
    simpa using Tended.begun p watched done

/-- After a pass, unless it looked at no file while files were watched. -/
theorem tended_rearm {touched : PathSet} (htouched : (touched.isEmpty && !before.isEmpty) = false)
    (b : Backend) (changed : List Path) (q : Path) :
    let v := (rearm b before touched changed).view b q
    Tended (touched.contains q) ⟨before.contains q, b.watcher.watched.contains q⟩ v.1 v.2 := by
  have hstart : Since b ⟨b, .empty, []⟩ := ⟨rfl, rfl⟩
  have hview : view b q ⟨b, .empty, []⟩ = ([], ⟨false, b.watcher.watched.contains q⟩) := rfl
  have hstale := PathSet.contains_diff before touched q
  rw [rearm, if_neg (by simp [htouched])]
  generalize before.diff touched = stale at hstale
  have hreleased := (local_release b).foldl_since hstart stale.toList
  cases htouch : touched.contains q with
  | true =>
    rw [htouch, Bool.not_true, Bool.and_false] at hstale
    rw [← (local_release b).foldl_frame hstart (PathSet.contains_eq_false_iff.mp hstale)] at hview
    obtain ⟨p, hp, hqp⟩ := PathSet.contains_iff.mp htouch
    obtain ⟨r, hr, hsame, harm⟩ :=
      (local_arm b before changed).foldl_view hreleased touched.distinct hp hqp
    rw [harm]
    exact tended_arm hr hqp (hsame.trans hview)
  | false =>
    rw [htouch, Bool.not_false, Bool.and_true] at hstale
    have hnone := PathSet.contains_eq_false_iff.mp htouch
    rw [(local_arm b before changed).foldl_frame hreleased hnone]
    cases hbefore : before.contains q with
    | true =>
      rw [hbefore] at hstale
      obtain ⟨p, hp, hqp⟩ := PathSet.contains_iff.mp hstale
      obtain ⟨r, hr, hsame, hrelease⟩ :=
        (local_release b).foldl_view hstart stale.distinct hp hqp
      obtain ⟨done, hdone⟩ := view_release hr hqp
      rw [hrelease, hdone, hsame, hview]
      exact .released p _ done
    | false =>
      rw [hbefore] at hstale
      rw [(local_release b).foldl_frame hstart (PathSet.contains_eq_false_iff.mp hstale), hview]
      exact .absent _

end Compiler.Rearmed

/-! ## Pass after pass -/

/-- What came of a pass for what is watched: the files that the pass looked at and those that had
changed, what was asked, and then the files that are believed to be watched and those that are. -/
structure Sweep where
  touched : PathSet
  changed : List Path
  asked : List Answer
  believed : PathSet
  watched : PathSet

namespace Sweep

/-- How a file stands after a pass. -/
def standing (s : Sweep) (q : Path) : Standing := ⟨s.believed.contains q, s.watched.contains q⟩

/-- What a pass does about one file; a pass that looks at no file asks for nothing as long as files
are watched. -/
inductive Tends (s : Sweep) (q : Path) (before : Standing) : Prop
  | tended (tended : Tended (s.touched.contains q) before (about q s.asked) (s.standing q))
      (none : s.touched.isEmpty = true → before.believed = false)
  | idle (none : s.touched.isEmpty = true) (asked : s.asked = []) (same : s.standing q = before)

variable {s : Sweep} {q : Path} {before : Standing}

theorem mem_about {asked : List Answer} {a : Answer} :
    a ∈ about q asked ↔ a ∈ asked ∧ (q == a.1.path) = true := List.mem_filter

namespace Tends

theorem watched (h : s.Tends q before) (hbefore : before.believed = true → before.watched = true) :
    (s.standing q).believed = true → (s.standing q).watched = true := by
  cases h with
  | tended tended none => exact tended.watched hbefore
  | idle none asked same => rwa [same]

theorem believed (h : s.Tends q before) (hasked : ∀ p, (WatchRequest.unwatch p, false) ∉ s.asked)
    (hbefore : before.watched = true → before.believed = true) :
    (s.standing q).watched = true → (s.standing q).believed = true := by
  cases h with
  | tended tended none => exact tended.believed (fun p hp => hasked p (mem_about.mp hp).1) hbefore
  | idle none asked same => rwa [same]

theorem touched_eq_false (hnone : s.touched.isEmpty = true) (q : Path) :
    s.touched.contains q = false := by
  rw [PathSet.contains, List.isEmpty_iff.mp hnone]
  rfl

theorem refused (h : s.Tends q before) (htouched : s.touched.contains q = true)
    (hq : (s.standing q).believed = false) :
    ∃ p, (q == p) = true ∧ (WatchRequest.watch p, false) ∈ s.asked := by
  cases h with
  | tended tended none =>
    rw [htouched] at tended
    obtain ⟨p, hp⟩ := tended.refused hq
    exact ⟨p, (mem_about.mp hp).2, (mem_about.mp hp).1⟩
  | idle none asked same => simp [touched_eq_false none] at htouched

theorem attempted (h : s.Tends q before) (htouched : s.touched.contains q = true)
    (hq : before.believed = false) :
    ∃ p done, (q == p) = true ∧ (WatchRequest.watch p, done) ∈ s.asked := by
  cases h with
  | tended tended none =>
    rw [htouched] at tended
    obtain ⟨p, done, hp⟩ := tended.attempted hq
    exact ⟨p, done, (mem_about.mp hp).2, (mem_about.mp hp).1⟩
  | idle none asked same => simp [touched_eq_false none] at htouched

theorem not_believed (h : s.Tends q before) (htouched : s.touched.contains q = false)
    (hq : before.believed = false) : (s.standing q).believed = false := by
  cases h with
  | tended tended none =>
    rw [htouched] at tended
    exact tended.not_believed
  | idle none asked same => rwa [same]

theorem believed_eq (h : s.Tends q before) (hasked : ∀ a ∈ s.asked, a.2 = true) :
    (s.standing q).believed =
      if s.touched.isEmpty then before.believed else s.touched.contains q := by
  cases h with
  | tended tended none =>
    rw [tended.believed_eq fun a ha => hasked a (mem_about.mp ha).1]
    split
    · next hnone => rw [none hnone, touched_eq_false hnone]
    · rfl
  | idle none asked same => rw [if_pos none, same]

end Tends
end Sweep

/-- What becomes of one file in one pass after the other. -/
inductive Passage (q : Path) : Standing → List Sweep → Standing → Prop
  | nil (st : Standing) : Passage q st [] st
  | cons {s : Sweep} {later : List Sweep} {before after : Standing} (step : s.Tends q before)
      (rest : Passage q (s.standing q) later after) : Passage q before (s :: later) after

namespace Passage

variable {q : Path} {before after : Standing} {earlier later : List Sweep}

theorem append_iff : Passage q before (earlier ++ later) after ↔
    ∃ st, Passage q before earlier st ∧ Passage q st later after := by
  induction earlier generalizing before with
  | nil =>
    constructor
    · exact fun h => ⟨before, .nil _, h⟩
    · rintro ⟨st, ⟨⟩, h⟩
      exact h
  | cons s earlier ih =>
    constructor
    · rintro (_ | ⟨step, rest⟩)
      obtain ⟨st, hearlier, hlater⟩ := ih.mp rest
      exact ⟨st, .cons step hearlier, hlater⟩
    · rintro ⟨st, _ | ⟨step, rest⟩, hlater⟩
      exact .cons step (ih.mpr ⟨st, rest, hlater⟩)

theorem watched (h : Passage q before earlier after)
    (hbefore : before.believed = true → before.watched = true) :
    after.believed = true → after.watched = true := by
  induction h with
  | nil => exact hbefore
  | cons step rest ih => exact ih (step.watched hbefore)

theorem believed (h : Passage q before earlier after)
    (hasked : ∀ s ∈ earlier, ∀ p, (WatchRequest.unwatch p, false) ∉ s.asked)
    (hbefore : before.watched = true → before.believed = true) :
    after.watched = true → after.believed = true := by
  induction h with
  | nil => exact hbefore
  | cons step rest ih =>
    obtain ⟨hs, hasked⟩ := List.forall_mem_cons.mp hasked
    exact ih hasked (step.believed hs hbefore)

theorem not_believed (h : Passage q before earlier after)
    (huntouched : ∀ s ∈ earlier, s.touched.contains q = false) (hbefore : before.believed = false) :
    after.believed = false := by
  induction h with
  | nil => exact hbefore
  | cons step rest ih =>
    obtain ⟨hs, huntouched⟩ := List.forall_mem_cons.mp huntouched
    exact ih huntouched (step.not_believed hs hbefore)

end Passage

/-- The files of a pass, or those from before if the pass looked at none. -/
def Sweep.lastTouched (files : PathSet) (s : Sweep) : PathSet :=
  if s.touched.isEmpty then files else s.touched

theorem Passage.believed_eq {q : Path} {before after : Standing} {history : List Sweep}
    (h : Passage q before history after) (hasked : ∀ s ∈ history, ∀ a ∈ s.asked, a.2 = true)
    {files : PathSet} (hbefore : before.believed = files.contains q) :
    after.believed = (history.foldl Sweep.lastTouched files).contains q := by
  induction h generalizing files with
  | nil => exact hbefore
  | cons step rest ih =>
    obtain ⟨hs, hasked⟩ := List.forall_mem_cons.mp hasked
    refine ih hasked ?_
    rw [step.believed_eq hs, Sweep.lastTouched]
    split
    · exact hbefore
    · rfl

namespace Compiler

/-- What a compiler with a backend does about its watcher after a pass. -/
def sweep (c : Compiler) (b : Backend) (touched : PathSet) (changed : List Path) : Sweep :=
  let r := rearm b c.watched touched changed
  ⟨touched, changed, b.answers r.requests, r.watched, r.backend.watcher.watched⟩

/-- A compiler that has watched nothing before the first of some passes, and what came of them;
between passes files may be reported, and hooks be called. -/
inductive Sweeps : List Sweep → Compiler → Prop
  | start {c : Compiler} {b : Backend} (backend : c.backend = some b)
      (unwatched : b.watcher.watched = .empty) (unbelieved : c.watched = .empty) : Sweeps [] c
  | between {history : List Sweep} {c c' : Compiler} {pending : List Path}
      (sweeps : Sweeps history c) (backend : c'.backend = (c.pend pending).backend)
      (watched : c'.watched = c.watched) : Sweeps history c'
  | pass {history : List Sweep} {c : Compiler} {b : Backend} (sweeps : Sweeps history c)
      (backend : c.backend = some b) (touched : PathSet) (changed : List Path) :
      Sweeps (history ++ [c.sweep b touched changed]) (c.rearmed touched changed).1

variable {c : Compiler} {history : List Sweep} {b : Backend} {callback : Callback}

/-- What a compiler does about one file after a pass. -/
theorem tends_sweep (c : Compiler) (b : Backend) (touched : PathSet) (changed : List Path)
    (q : Path) : (c.sweep b touched changed).Tends q
      ⟨c.watched.contains q, b.watcher.watched.contains q⟩ := by
  cases hempty : touched.isEmpty && !c.watched.isEmpty with
  | true =>
    have hrearm : rearm b c.watched touched changed = ⟨b, c.watched, []⟩ := if_pos hempty
    unfold sweep
    rw [hrearm]
    exact .idle (Bool.and_eq_true_iff.mp hempty).1 rfl rfl
  | false =>
    refine .tended (Rearmed.tended_rearm hempty b changed q) fun hnone => ?_
    have hnone : touched.isEmpty = true := hnone
    rw [hnone, Bool.true_and, Bool.not_eq_false'] at hempty
    have hbefore : c.watched.toList = [] := List.isEmpty_iff.mp hempty
    simp [PathSet.contains, hbefore]

/-- What has become of a file is what the passes did about it. -/
theorem Sweeps.passage (h : Sweeps history c) (q : Path) :
    ∃ b, c.backend = some b ∧ Passage q ⟨false, false⟩ history
      ⟨c.watched.contains q, b.watcher.watched.contains q⟩ := by
  induction h with
  | @start c b backend unwatched unbelieved =>
    refine ⟨b, backend, ?_⟩
    rw [unwatched, unbelieved]
    exact .nil _
  | @between history c c' pending sweeps backend watched ih =>
    obtain ⟨b, hb, hpassage⟩ := ih
    refine ⟨_, backend.trans (backend_pend hb pending), ?_⟩
    rwa [watched]
  | @pass history c b sweeps backend touched changed ih =>
    obtain ⟨b', hb, hpassage⟩ := ih
    obtain rfl : b = b' := Option.some.inj (backend.symm.trans hb)
    refine ⟨(rearm b c.watched touched changed).backend, ?_, ?_⟩
    · rw [rearmed, hb]
    · refine Passage.append_iff.mpr ⟨_, hpassage, ?_⟩
      rw [rearmed, hb]
      exact .cons (tends_sweep c b touched changed q) (.nil _)

/-- What is known after a pass about what is watched, given the passes before and after it. -/
structure Faithful (earlier : List Sweep) (s : Sweep) (later : List Sweep) : Prop where
  /-- What is believed to be watched is. -/
  watched : s.believed.Within s.watched
  /-- Nothing else is watched as long as no release was refused. -/
  believed : (∀ u ∈ earlier ++ [s], ∀ p, (WatchRequest.unwatch p, false) ∉ u.asked) →
    s.watched.Within s.believed
  /-- If a file that the pass looked at is missing, then its watch was refused, -/
  refused : ∀ q, s.touched.contains q = true → s.believed.contains q = false →
    ∃ p, (q == p) = true ∧ (WatchRequest.watch p, false) ∈ s.asked
  /-- and it is asked for again by the next pass that looks at it. -/
  again : ∀ q, s.touched.contains q = true → s.believed.contains q = false →
    ∀ between next rest, later = between ++ next :: rest →
      (∀ u ∈ between, u.touched.contains q = false) → next.touched.contains q = true →
      ∃ p done, (q == p) = true ∧ (WatchRequest.watch p, done) ∈ next.asked
  /-- If nothing was refused, then the files of the last pass that looked at any are watched. -/
  latest : (∀ u ∈ earlier ++ [s], ∀ a ∈ u.asked, a.2 = true) → ∀ q,
    s.believed.contains q = ((earlier ++ [s]).foldl Sweep.lastTouched .empty).contains q

theorem Sweeps.faithful (h : Sweeps history c) {earlier later : List Sweep} {s : Sweep}
    (hsplit : history = earlier ++ s :: later) : Faithful earlier s later := by
  have hpassage (q : Path) : ∃ before after, Passage q ⟨false, false⟩ earlier before ∧
      s.Tends q before ∧ Passage q (s.standing q) later after := by
    obtain ⟨b, -, hpassage⟩ := h.passage q
    rw [hsplit] at hpassage
    obtain ⟨before, hearlier, _ | ⟨step, rest⟩⟩ := Passage.append_iff.mp hpassage
    exact ⟨before, _, hearlier, step, rest⟩
  constructor
  case watched =>
    intro q
    obtain ⟨before, after, hearlier, step, -⟩ := hpassage q
    exact step.watched (hearlier.watched id)
  case believed =>
    intro hasked q
    obtain ⟨before, after, hearlier, step, -⟩ := hpassage q
    obtain ⟨hasked, hs⟩ := List.forall_mem_append.mp hasked
    exact step.believed (hs s List.mem_cons_self) (hearlier.believed hasked id)
  case refused =>
    intro q htouched hmissing
    obtain ⟨before, after, -, step, -⟩ := hpassage q
    exact step.refused htouched hmissing
  case again =>
    intro q htouched hmissing between next rest hlater huntouched hnext
    obtain ⟨before, after, -, -, hpassage⟩ := hpassage q
    rw [hlater] at hpassage
    obtain ⟨st, hbetween, _ | ⟨step, -⟩⟩ := Passage.append_iff.mp hpassage
    exact step.attempted hnext (hbetween.not_believed huntouched hmissing)
  case latest =>
    intro hasked q
    obtain ⟨before, after, hearlier, step, -⟩ := hpassage q
    have hpassage := Passage.append_iff.mpr ⟨before, hearlier, .cons step (.nil _)⟩
    exact hpassage.believed_eq hasked rfl

/-- The compiler is as its last pass has left it. -/
theorem Sweeps.last (h : Sweeps history c) {earlier : List Sweep} {s : Sweep}
    (hlast : history = earlier ++ [s]) :
    c.watched = s.believed ∧ ∃ b, c.backend = some b ∧ b.watcher.watched = s.watched := by
  induction h with
  | start => simp at hlast
  | @between history c c' pending sweeps backend watched ih =>
    obtain ⟨hbelieved, b, hb, hwatched⟩ := ih hlast
    exact ⟨watched.trans hbelieved, _, backend.trans (backend_pend hb pending), hwatched⟩
  | @pass history c b sweeps backend touched changed ih =>
    obtain ⟨-, rfl⟩ := List.append_inj' hlast rfl |>.imp id (List.cons.inj · |>.1)
    rw [rearmed, backend]
    exact ⟨rfl, _, rfl, rfl⟩

/-! ## The passes of calls -/

theorem Sweeps.passes {t : FileTree} {changed : List Path} {o : Outcome} (h : Sweeps history c)
    (hpass : c.Passes callback t changed o) : ∃ s, s.touched = (Compilation.build c.options t).1 ∧
      s.changed = changed ∧ Sweeps (history ++ [s]) o.compiler := by
  cases hpass with
  | @mk touched _ _ _ _ pending pending' _ armed _ _ _ _ makes hands arms fires taps =>
    have hhanded : Sweeps history (c.pend pending) := h.between rfl rfl
    obtain ⟨b, hb, -⟩ := hhanded.passage ⟨""⟩
    have hsweeps := hhanded.pass hb touched changed
    rw [arms] at hsweeps
    exact ⟨(c.pend pending).sweep b touched changed, makes.touched_eq.symm, rfl,
      hsweeps.between rfl rfl⟩

theorem Sweeps.course {t : FileTree} {changed : List Path} {changes : List Change} {o : Outcome}
    (hcourse : Course callback c t changed changes o) (h : Sweeps history c) :
    ∃ later, Sweeps (history ++ later) o.compiler := by
  induction hcourse generalizing history with
  | failed pass failure changes =>
    obtain ⟨s, -, -, hs⟩ := h.passes pass
    exact ⟨[s], hs⟩
  | last pass success outside =>
    obtain ⟨s, -, -, hs⟩ := h.passes pass
    exact ⟨[s], hs.between rfl rfl⟩
  | next pass success outside course ih =>
    obtain ⟨s, -, -, hs⟩ := h.passes pass
    obtain ⟨later, hlater⟩ := ih (hs.between rfl rfl)
    exact ⟨s :: later, by rwa [List.append_assoc] at hlater⟩

theorem Sweeps.opens {t t' : FileTree} {failure : Option HookError} {c' : Compiler}
    {seen : List Sight} (h : Sweeps history c) (hopens : c.Opens t failure c' t' seen) :
    Sweeps history c' := by
  cases hopens with
  | mk fires taps => exact h.between rfl rfl

theorem Sweeps.starts {t : FileTree} {goesOn : Compiler → FileTree → List Sight → Outcome → Prop}
    {o : Outcome} (h : Sweeps history c) (hstarts : c.Starts t goesOn o)
    (hgoes : ∀ c t seen o, Sweeps history c → goesOn c t seen o →
      ∃ later, Sweeps (history ++ later) o.compiler) :
    ∃ later, Sweeps (history ++ later) o.compiler := by
  cases hstarts with
  | refused opens => exact ⟨[], by rw [List.append_nil]; exact h.opens opens⟩
  | started opens rest =>
    obtain ⟨later, hlater⟩ := hgoes _ _ _ _ (h.opens opens) rest
    exact ⟨later, hlater⟩

/-- Whatever is refused, a compiler never believes a file to be watched that is not, and it asks
again for what was refused; all passes of its calls are such passes. -/
theorem faithful_of_sweeps (h : Sweeps history c) :
    (∀ earlier s later, history = earlier ++ s :: later → Faithful earlier s later) ∧
    (∀ earlier s, history = earlier ++ [s] → c.watched = s.believed ∧
      ∃ b, c.backend = some b ∧ b.watcher.watched = s.watched) ∧
    ∀ callback t, (∃ later, Sweeps (history ++ later) (c.run callback t).compiler) ∧
      ∀ batches, ∃ later, Sweeps (history ++ later) (c.watch callback t batches).compiler := by
  refine ⟨fun _ _ _ => h.faithful, fun _ _ => h.last, fun callback t => ⟨?_, fun batches => ?_⟩⟩
  · refine h.starts (c.starts_run callback t) fun c t _ o h hpass => ?_
    obtain ⟨s, -, -, hs⟩ := h.passes hpass
    exact ⟨[s], hs⟩
  · exact h.starts (c.starts_watch callback t batches) fun c t _ o h hcourse => h.course hcourse

/-- A compiler with a backend that refuses its second request. -/
def refusingCompiler : Compiler :=
  { Compilation.pairCompiler with backend := some ⟨.empty, 0, fun n _ => n == 1⟩ }

theorem faithful_of_refusing :
    ∃ (c : Compiler) (s s' : Sweep), Sweeps [s, s'] c ∧ Faithful [] s [s'] ∧ Faithful [s] s' [] ∧
      s.asked = [(.watch ⟨"/a.js"⟩, true), (.watch ⟨"/b.js"⟩, false)] ∧
      s.believed.toList = [⟨"/a.js"⟩] ∧ s'.asked = [(.watch ⟨"/b.js"⟩, true)] ∧
      s'.believed.toList = [⟨"/a.js"⟩, ⟨"/b.js"⟩] := by
  let touched := PathSet.ofList [⟨"/a.js"⟩, ⟨"/b.js"⟩]
  have hstart : Sweeps [] refusingCompiler := .start rfl rfl rfl
  have hfirst := hstart.pass rfl touched []
  have hsecond := hfirst.pass rfl touched []
  have hall := (faithful_of_sweeps hsecond).1
  exact ⟨_, _, _, hsecond, hall [] _ [_] rfl, hall [_] _ [] rfl, by decide,
    by decide, by decide, by decide⟩

end Compiler
end ModuleBundler
