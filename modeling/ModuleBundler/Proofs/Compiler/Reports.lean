import ModuleBundler.Proofs.Compiler.Shared

/-! Which reports of changes a watching compiler answers with a pass: whatever was accepted since it
collected them last. -/
namespace ModuleBundler
open ModuleBundler.Watcher

/-- The changes that the watcher took note of. -/
def reported (events : List Event) : List Path :=
  events.filterMap fun
    | .touch p true => some p
    | _ => none

theorem reported_append (events later : List Event) :
    reported (events ++ later) = reported events ++ reported later := List.filterMap_append

namespace Compiler

variable {c : Compiler} {b : Backend} {i : Nat} {history : List Deed} {r : Rearmed}
  {waiting : List Path}

/-- After some requests a watcher is reached. -/
def Asked (i : Nat) (history : List Deed) (w : Watcher) : Prop :=
  ∃ es, (∀ e ∈ es, ∃ request, e = Deed.request request) ∧ Reached i (history ++ es) w

theorem asked_ask (h : Asked i history r.backend.watcher) (request : WatchRequest) :
    Asked i history (r.ask request).1.backend.watcher := by
  obtain ⟨es, hes, hreached⟩ := h
  have hask : (r.backend.ask request).1.watcher = r.backend.watcher ∨
      (r.backend.ask request).1.watcher = r.backend.watcher.obey request := by
    unfold Backend.ask
    split
    · exact .inl rfl
    · cases request <;> exact .inr rfl
  obtain hask | hask := hask
  · exact ⟨es, hes, by rw [Rearmed.ask, hask]; exact hreached⟩
  · refine ⟨es ++ [.request request], List.forall_mem_append.mpr
      ⟨hes, List.forall_mem_singleton.mpr ⟨request, rfl⟩⟩, ?_⟩
    rw [Rearmed.ask, hask, ← List.append_assoc]
    exact hreached.obey request

theorem asked_begin (h : Asked i history r.backend.watcher) (p : Path) :
    Asked i history (r.begin p).backend.watcher := by
  have hask := asked_ask h (.watch p)
  unfold Rearmed.begin
  dsimp only
  split <;> exact hask

theorem asked_arm (h : Asked i history r.backend.watcher) (before : PathSet) (changed : List Path)
    (p : Path) : Asked i history (r.arm before changed p).backend.watcher := by
  rw [Rearmed.arm_eq]
  split
  · split
    · exact asked_begin (asked_ask h _) p
    · exact h
  · exact asked_begin h p

theorem asked_foldl {step : Rearmed → Path → Rearmed}
    (hstep : ∀ r p, Asked i history r.backend.watcher → Asked i history (step r p).backend.watcher)
    (h : Asked i history r.backend.watcher) (ps : List Path) :
    Asked i history (ps.foldl step r).backend.watcher := by
  induction ps generalizing r with
  | nil => exact h
  | cons p ps ih => exact ih (hstep r p h)

/-- A pass asks its watcher for something, and does nothing else with it. -/
theorem asked_rearm (h : Reached i history b.watcher) (before touched : PathSet)
    (changed : List Path) : Asked i history (rearm b before touched changed).backend.watcher := by
  have hstart : Asked i history b.watcher := ⟨[], by simp, by rwa [List.append_nil]⟩
  unfold rearm
  split
  · exact hstart
  · exact asked_foldl (fun _ p h => asked_arm h before changed p)
      (asked_foldl (fun _ p h => asked_ask h (.unwatch p)) hstart _) _

/-- These reports wait for a compiler that uses a handle of its watcher, if reports have been left
to that handle: they are what was accepted since something was collected with it. -/
def Waits (c : Compiler) (i : Nat) (waiting : List Path) : Prop :=
  ∃ history b, c.backend = some b ∧ Reached i history b.watcher ∧ (∀ e ∈ history, e.LeftTo i) ∧
    accepted (since i history) = waiting

theorem Waits.touch (h : c.Waits i waiting) (p : Path) :
    (c.touch p).1.Waits i (waiting ++ reported [.touch p (c.touch p).2]) := by
  obtain ⟨history, b, hb, hreached, hleft, rfl⟩ := h
  have htouch : c.touch p = ({ c with backend := some { b with watcher := (b.watcher.touch p).1 } },
      (b.watcher.touch p).2) := by simp [Compiler.touch, hb]
  rw [htouch]
  refine ⟨_, _, rfl, hreached.touch p, List.forall_mem_append.mpr
    ⟨hleft, List.forall_mem_singleton.mpr trivial⟩, ?_⟩
  rw [since_append (by simp), accepted_append]
  cases (b.watcher.touch p).2 <;> rfl

/-- What others report waits. -/
theorem Waits.undergo (h : c.Waits i waiting) (t : FileTree) (batch : List Change) :
    (c.undergo t batch).1.Waits i (waiting ++ reported (c.undergo t batch).2.2) := by
  induction batch generalizing c t waiting with
  | nil => simpa [Compiler.undergo, reported] using h
  | cons change batch ih =>
    cases change with
    | touch p =>
      have hrest := ih (h.touch p) t
      rw [List.append_assoc, ← reported_append] at hrest
      exact hrest
    | _ => exact ih h _

/-- So does what taps report. -/
theorem Waits.undergoCalls (h : c.Waits i waiting) (t : FileTree) (calls : List TapCall) :
    (c.undergoCalls t calls).1.Waits i
      (waiting ++ reported ((c.undergoCalls t calls).2.2.map Sight.event)) := by
  induction calls generalizing c t waiting with
  | nil => simpa [Compiler.undergoCalls, reported] using h
  | cons call calls ih =>
    have hrest := ih (h.undergo t call.changes) (c.undergo t call.changes).2.1
    have hevents : (c.undergoCalls t (call :: calls)).2.2.map Sight.event
        = .tap call :: ((c.undergo t call.changes).2.2 ++
          ((c.undergo t call.changes).1.undergoCalls (c.undergo t call.changes).2.1 calls).2.2.map
            Sight.event) := by
      simp only [Compiler.undergoCalls, List.map_cons, List.map_append, FileTree.events_sights]
    rw [List.append_assoc, ← reported_append] at hrest
    rw [hevents]
    exact hrest

/-- A pass asks its watcher for something, and does nothing about reports. -/
theorem Waits.rearmed (h : c.Waits i waiting) (touched : PathSet) (changed : List Path) :
    (c.rearmed touched changed).1.Waits i waiting := by
  obtain ⟨history, b, hb, hreached, hleft, rfl⟩ := h
  obtain ⟨es, hes, hreached⟩ := asked_rearm hreached c.watched touched changed
  have hrequest (e : Deed) (he : e ∈ es) : e.LeftTo i ∧ ∀ answer, e ≠ .batch i answer := by
    obtain ⟨r, rfl⟩ := hes e he
    exact ⟨trivial, fun _ h => by cases h⟩
  have haccepted : accepted es = [] := List.filterMap_eq_nil_iff.mpr fun e he => by
    obtain ⟨r, rfl⟩ := hes e he
    rfl
  refine ⟨_, (rearm b c.watched touched changed).backend, by rw [Compiler.rearmed, hb], hreached,
    List.forall_mem_append.mpr ⟨hleft, fun e he => (hrequest e he).1⟩, ?_⟩
  rw [since_append fun e he => (hrequest e he).2, accepted_append, haccepted, List.append_nil]

/-- What is collected is what was accepted since something was collected last. -/
theorem Waits.collect (h : c.Waits i waiting) :
    c.collect = (c.pend [], (PathSet.ofList waiting).toList) ∧ (c.pend []).Waits i [] := by
  obtain ⟨history, b, hb, hreached, hleft, rfl⟩ := h
  have hpending : b.watcher.pending = accepted (since i history) := by
    obtain ⟨s, hs, hw, hidle⟩ := hreached
    rw [hs.accepted_since hleft, hidle, hw]
    rfl
  obtain ⟨takes, htakes, hcollect⟩ := hreached.collect
  refine ⟨?_, _, { b with watcher := b.watcher.collect.1 }, ?_, hcollect, ?_, ?_⟩
  · rw [← hpending]
    simp [Compiler.collect, hb, pend, Watcher.collect]
  · simp [pend, hb, Watcher.collect]
  · refine List.forall_mem_append.mpr ⟨List.forall_mem_append.mpr ⟨hleft, fun e he => ?_⟩,
      List.forall_mem_singleton.mpr trivial⟩
    obtain ⟨p, rfl⟩ := htakes e he
    rfl
  · rw [since_concat]
    exact congrArg accepted (if_pos rfl)

/-- What the taps for the start of a call report waits, -/
theorem Waits.opens {t t' : FileTree} {failure : Option HookError} {c' : Compiler}
    {seen : List Sight} (h : c.Waits i waiting) (hopens : c.Opens t failure c' t' seen) :
    c'.Waits i (waiting ++ reported (seen.map Sight.event)) := by
  cases hopens with
  | @mk calls pending seen fires taps =>
    have hcalled : { c with runHook := c.runHook.called }.Waits i waiting := h
    have hcalls := hcalled.undergoCalls t calls
    rwa [taps] at hcalls

/-- and so does what is reported in a pass: when its result is handed over, and by the taps for its
end. -/
theorem Waits.passes {callback : Callback} {t : FileTree} {changed : List Path} {o : Outcome}
    (h : c.Waits i waiting) (hpass : c.Passes callback t changed o) :
    o.compiler.Waits i (waiting ++ reported o.events) := by
  cases hpass with
  | @mk touched result built handed after pending pending' events armed requests calls failure seen
      makes hands arms fires taps =>
    have hhanded := h.undergo built (callback c.doneHook.calls result)
    rw [hands] at hhanded
    have harmed := hhanded.rearmed touched changed
    rw [arms] at harmed
    have hcalled : { armed with doneHook := c.doneHook.called }.Waits i
        (waiting ++ reported events) := harmed
    have hcalls := hcalled.undergoCalls handed calls
    rw [taps, List.append_assoc] at hcalls
    have hrequests : reported (requests.map .request) = [] := by
      simp [reported, List.filterMap_map]
    rw [Outcome.events, List.map_cons, List.map_append, FileTree.events_sights]
    change Waits _ i (waiting ++ reported (events ++ requests.map .request ++ seen.map Sight.event))
    rw [reported_append, reported_append, hrequests, List.append_nil]
    exact hcalls

/-- One batch of changes after the other, with the reports that were waiting before the first. Where
nothing is waiting, there is no pass; otherwise there is one, and the changed files are exactly
those that reports are waiting about, each once and in their order. What is reported in a pass waits
for the next one. -/
inductive Rounds (callback : Callback) :
    List Path → Compiler → FileTree → Nat → List (List Change) → Outcome → Prop
  | done (waiting : List Path) (c : Compiler) (t : FileTree) (index : Nat) :
      Rounds callback waiting c t index [] ⟨c, t, [], none⟩
  | quiet {waiting : List Path} {c c' : Compiler} {t t' : FileTree} {index : Nat}
      {batch : List Change} {batches : List (List Change)} {events : List Event} {o : Outcome}
      (others : c.undergo t batch = (c', t', events)) (nothing : waiting ++ reported events = [])
      (rest : Rounds callback [] (c'.pend []) t' (index + 1) batches o) :
      Rounds callback waiting c t index (batch :: batches)
        { o with seen := t'.sights (.batch index :: events) ++ o.seen }
  | failed {waiting : List Path} {c c' : Compiler} {t t' : FileTree} {index : Nat}
      {batch : List Change} {batches : List (List Change)} {events : List Event} {o : Outcome}
      {e : HookError} (others : c.undergo t batch = (c', t', events))
      (something : waiting ++ reported events ≠ [])
      (pass : (c'.pend []).Passes callback t'
        (PathSet.ofList (waiting ++ reported events)).toList o)
      (failure : o.failure = some e) :
      Rounds callback waiting c t index (batch :: batches)
        { o with seen := t'.sights (.batch index :: events) ++ o.seen }
  | passed {waiting : List Path} {c c' : Compiler} {t t' : FileTree} {index : Nat}
      {batch : List Change} {batches : List (List Change)} {events : List Event} {o o' : Outcome}
      (others : c.undergo t batch = (c', t', events)) (something : waiting ++ reported events ≠ [])
      (pass : (c'.pend []).Passes callback t'
        (PathSet.ofList (waiting ++ reported events)).toList o)
      (success : o.failure = none)
      (rest : Rounds callback (reported o.events) o.compiler o.tree (index + 1) batches o') :
      Rounds callback waiting c t index (batch :: batches)
        { o' with seen := t'.sights (.batch index :: events) ++ o.seen ++ o'.seen }

/-- What comes of a call that watches, with the reports that were waiting before it; what the taps
for its start report waits as well. -/
inductive Watches (callback : Callback) (waiting : List Path) (batches : List (List Change))
    (c : Compiler) (t : FileTree) (opening : List Sight) : Outcome → Prop
  | failed {o : Outcome} {e : HookError} (pass : c.Passes callback t [] o)
      (failure : o.failure = some e) : Watches callback waiting batches c t opening o
  | rounds {o o' : Outcome} (pass : c.Passes callback t [] o) (success : o.failure = none)
      (rounds : Rounds callback
        (waiting ++ reported (opening.map Sight.event) ++ reported o.events) o.compiler o.tree 0
        batches o') :
      Watches callback waiting batches c t opening { o' with seen := o.seen ++ o'.seen }

theorem ofList_isEmpty (ps : List Path) : (PathSet.ofList ps).toList.isEmpty = ps.isEmpty := by
  cases ps with
  | nil => rfl
  | cons p ps =>
    have hp : (PathSet.ofList (p :: ps)).contains p = true := by
      simp [PathSet.contains_ofList]
    obtain ⟨q, hq, -⟩ := PathSet.contains_iff.mp hp
    simpa using List.ne_nil_of_mem hq

/-- The compiler answers what waits, and then what is reported, batch after batch. -/
theorem Waits.rounds (h : c.Waits i waiting) (callback : Callback) (t : FileTree) (index : Nat)
    (batches : List (List Change)) :
    Rounds callback waiting c t index batches (c.follow callback t index batches) := by
  induction batches generalizing c t index waiting with
  | nil => exact .done ..
  | cons batch batches ih =>
    have hreported := h.undergo t batch
    rcases hundergo : c.undergo t batch with ⟨c₁, t₁, events⟩
    rw [hundergo] at hreported
    obtain ⟨hcollect, hcollected⟩ := hreported.collect
    unfold follow
    simp only [hundergo, hcollect, ofList_isEmpty]
    split
    · next hnothing =>
      exact .quiet hundergo (List.isEmpty_iff.mp hnothing) (ih hcollected t₁ (index + 1))
    · next hsomething =>
      have hsomething : waiting ++ reported events ≠ [] :=
        fun h => hsomething (List.isEmpty_iff.mpr h)
      have hpass := passes_pass (c₁.pend []) callback t₁
        (PathSet.ofList (waiting ++ reported events)).toList
      have hpassed := hcollected.passes hpass
      rw [List.nil_append] at hpassed
      generalize (c₁.pend []).pass callback t₁ _ = o at hpass hpassed ⊢
      split
      · next e hfailure => exact .failed hundergo hsomething hpass hfailure
      · next hsuccess =>
        exact .passed hundergo hsomething hpass hsuccess (ih hpassed o.tree (index + 1))

theorem Waits.watches (h : c.Waits i waiting) (callback : Callback) (t : FileTree)
    (batches : List (List Change)) :
    c.Starts t (Watches callback waiting batches) (c.watch callback t batches) := by
  refine starts_watching fun c' t' opening o opens pass =>
    ⟨fun e hfailure => .failed pass hfailure, fun hsuccess => ?_⟩
  exact .rounds pass hsuccess (((h.opens opens).passes pass).rounds callback o.tree 0 batches)

end Compiler

namespace Watcher

/-- No report is lost, and none is given back twice, in whatever order the steps with the handles of
a watcher happen. If a compiler uses one of them, and the reports are left to it, then each batch of
changes makes a pass run exactly if something was accepted since the batch before, with exactly the
accepted files as the changed ones; what is reported during a pass counts as well. -/
theorem reports_of_shared {history : List Deed} {s : Site} (h : Shared history s) :
    Kept history s ∧ (∀ past e future, history = past ++ e :: future → Lawful past e) ∧
    (accepted history).Perm ((ledger history).given ++ (ledger history).held.map Prod.snd ++
      s.watcher.pending) ∧
    ∀ i, s.doing i = .idle → (∀ e ∈ history, e.LeftTo i) →
      s.watcher.pending = accepted (since i history) ∧
      ∀ (c : Compiler) b, c.backend = some b → b.watcher = s.watcher → ∀ callback t batches,
        (∀ index, Compiler.Rounds callback (accepted (since i history)) c t index batches
          (c.follow callback t index batches)) ∧
        c.Starts t (Compiler.Watches callback (accepted (since i history)) batches)
          (c.watch callback t batches) := by
  refine ⟨h.kept, fun _ _ _ => h.lawful, ?_, fun i hidle hleft => ⟨?_, ?_⟩⟩
  · rw [h.kept.order]
    exact (taken_perm history).append_right _
  · rw [h.accepted_since hleft, hidle]
    rfl
  · intro c b hb hw callback t batches
    have hwaits : c.Waits i (accepted (since i history)) :=
      ⟨history, b, hb, ⟨s, h, hw.symm, hidle⟩, hleft, rfl⟩
    exact ⟨fun index => hwaits.rounds callback t index batches,
      hwaits.watches callback t batches⟩

/-- What a tap for the end of the first pass reports makes another pass run. -/
example :
    let tap : Tap := { name := "t", changes := fun n => if n = 0 then [.touch ⟨"/a.js"⟩] else [] }
    let c : Compiler := { Compilation.pairCompiler with
      doneHook := { name := "done", taps := [tap] } }
    (c.watch .silent Compilation.alone [[], []]).seen.countP Sight.isReport = 2 := by
  decide +kernel

/-- With two handles: changes come while others are collected, and another one afterwards. -/
def twoHandles : List Deed :=
  [.request (.watch ⟨"a"⟩), .request (.watch ⟨"b"⟩), .touch ⟨"b"⟩ true, .take 0 ⟨"b"⟩,
    .touch ⟨"a"⟩ true, .touch ⟨"b"⟩ true, .touch ⟨"c"⟩ false, .take 0 ⟨"a"⟩, .take 0 ⟨"b"⟩,
    .batch 0 [⟨"a"⟩, ⟨"b"⟩], .touch ⟨"a"⟩ true]

theorem reports_of_two_handles : ∃ s, Shared twoHandles s ∧ Kept twoHandles s ∧
    s.doing 0 = .idle ∧ (∀ e ∈ twoHandles, e.LeftTo 0) ∧ s.watcher.pending = [⟨"a"⟩] ∧
    s.watcher.pending = accepted (since 0 twoHandles) := by
  obtain ⟨history, s, h, rfl, hidle, hpending⟩ : ∃ history s, Shared history s ∧
      history = twoHandles ∧ s.doing 0 = .idle ∧ s.watcher.pending = [⟨"a"⟩] := by
    have h := Shared.start.step (i := 1) (.request (.watch ⟨"a"⟩) rfl)
    have h := h.step (i := 1) (.request (.watch ⟨"b"⟩) rfl)
    have h := h.step (i := 1) (.touch ⟨"b"⟩ rfl)
    have h := h.step (i := 0) (.start .all rfl)
    have h := h.step (i := 0) (.take rfl (by simp) rfl)
    have h := h.step (i := 1) (.touch ⟨"a"⟩ rfl)
    have h := h.step (i := 1) (.touch ⟨"b"⟩ rfl)
    have h := h.step (i := 1) (.touch ⟨"c"⟩ rfl)
    have h := h.step (i := 0) (.take rfl (by simp) rfl)
    have h := h.step (i := 0) (.take rfl (by simp) rfl)
    have h := h.step (i := 0) (.wait rfl (by simp) rfl)
    have h := h.step (i := 0) (.closed rfl rfl)
    have h := h.step (i := 1) (.touch ⟨"a"⟩ rfl)
    exact ⟨_, _, h, by decide, rfl, by decide⟩
  have hleft : ∀ e ∈ twoHandles, e.LeftTo 0 := by simp [twoHandles, Deed.LeftTo]
  obtain ⟨hkept, -, -, hreports⟩ := reports_of_shared h
  exact ⟨s, h, hkept, hidle, hleft, hpending, (hreports 0 hidle hleft).1⟩

end Watcher
end ModuleBundler
