import ModuleBundler.Compiler.Watch
import ModuleBundler.Proofs.Compiler.Emission

/-! The course of a call: first the taps for its start, then passes. A pass builds and writes, then
hands over what came of it, then sees to the files that are watched, and then calls the taps for
its end. Taps, and those who are handed a result, may change the files and report to the watcher. -/
namespace ModuleBundler

namespace Hook

/-- The hook after one more call. -/
def called (h : Hook) : Hook := { h with calls := h.calls + 1 }

/-- What is noted when a tap of the hook is called. -/
def callOf (h : Hook) (t : Tap) : TapCall := ⟨h.name, t.name, t.note, t.changes h.calls⟩

/-- The taps of a hook are called in their order: all of them, if they all succeed, or else those
up to the first that fails. -/
inductive Fires (h : Hook) : List TapCall → Option HookError → Prop
  | all (succeed : ∀ t ∈ h.taps, t.failure h.calls = none) : Fires h (h.taps.map h.callOf) none
  | upTo {before after : List Tap} {t : Tap} {reason : String}
      (taps : h.taps = before ++ t :: after)
      (succeed : ∀ u ∈ before, u.failure h.calls = none)
      (fails : t.failure h.calls = some reason) :
      Fires h ((before ++ [t]).map h.callOf) (some ⟨h.name, t.name, reason⟩)

variable {h : Hook}

/-- A tap of the hook fails when the hook was called so many times before. -/
def FailsAt (h : Hook) (n : Nat) : Prop := ∃ t ∈ h.taps, (t.failure n).isSome = true

/-- The first tap that fails is called, so no failure is passed over. -/
theorem Fires.failure_iff {calls : List TapCall} {failure : Option HookError}
    (hf : h.Fires calls failure) : failure.isSome = true ↔ h.FailsAt h.calls := by
  cases hf with
  | all succeed =>
    constructor
    · intro hs
      cases hs
    · rintro ⟨t, ht, hs⟩
      rw [succeed t ht] at hs
      cases hs
  | upTo taps succeed fails =>
    refine iff_of_true rfl ⟨_, ?_, Option.isSome_iff_exists.mpr ⟨_, fails⟩⟩
    rw [taps]
    exact List.mem_append_right _ List.mem_cons_self

theorem callTaps_of_failure {hook reason : String} {calls : Nat} {before after : List Tap} {t : Tap}
    (hb : ∀ u ∈ before, u.failure calls = none) (ht : t.failure calls = some reason) :
    callTaps hook calls (before ++ t :: after)
      = ((before ++ [t]).map fun t => ⟨hook, t.name, t.note, t.changes calls⟩,
          some ⟨hook, t.name, reason⟩) := by
  induction before with
  | nil => simp [callTaps, ht]
  | cons u before ih =>
    obtain ⟨hu, hb⟩ := List.forall_mem_cons.mp hb
    simp [callTaps, hu, ih hb]

theorem call_fires (h : Hook) : h.Fires h.call.2.1 h.call.2.2 := by
  by_cases hall : ∀ t ∈ h.taps, t.failure h.calls = none
  · have heq : h.call.2 = (h.taps.map h.callOf, none) := callTaps_of_no_failure hall
    rw [heq]
    exact .all hall
  · obtain ⟨t, hfind⟩ : ∃ t, h.taps.find? (fun t => (t.failure h.calls).isSome) = some t := by
      rw [← Option.isSome_iff_exists, List.find?_isSome]
      simpa [Option.isSome_iff_ne_none] using hall
    obtain ⟨ht, before, after, htaps, hbefore⟩ := List.find?_eq_some_iff_append.mp hfind
    obtain ⟨reason, ht⟩ := Option.isSome_iff_exists.mp ht
    have hbefore : ∀ u ∈ before, u.failure h.calls = none := by simpa using hbefore
    have heq : h.call.2 = ((before ++ [t]).map h.callOf, some ⟨h.name, t.name, reason⟩) := by
      rw [call, htaps]
      exact callTaps_of_failure hbefore ht
    rw [heq]
    exact .upTo htaps hbefore ht

/-- The second tap fails at the first call, so the third is not called. -/
example :
    let h : Hook := { name := "run", taps :=
      [{ name := "a" }, { name := "b", failure := fun n => [ "busy" ][n]? }, { name := "c" }] }
    h.call.2.1.map (·.tap) = ["a", "b"] ∧ h.called.call.2.1.map (·.tap) = ["a", "b", "c"] := by
  decide

end Hook

/-! ## Writing -/

/-- The directories above the place of an asset are there, and nothing else has changed. -/
def Asset.Housed (directory : Path) (a : Asset) (t housed : FileTree) : Prop :=
  match (a.path directory).parent? with
  | some above => t.createDirectories above = (housed, none)
  | none => housed = t

/-- Assets are written one after the other, each to its place below a directory. -/
inductive Written (directory : Path) : FileTree → List Asset → FileTree → Prop
  | nil (t : FileTree) : Written directory t [] t
  | cons {t housed next after : FileTree} {a : Asset} {as : List Asset}
      (house : a.Housed directory t housed)
      (file : housed.writeFile (a.path directory) (some a.text) = .ok next)
      (others : Written directory next as after) : Written directory t (a :: as) after

/-- An asset cannot be written: a directory above it cannot be made, or the file itself. -/
inductive Blocked (directory : Path) (t : FileTree) (a : Asset) : BundleError → FileTree → Prop
  | directory {above : Path} {fault : FileFault} {after : FileTree}
      (parent : (a.path directory).parent? = some above)
      (fails : t.createDirectories above = (after, some fault)) :
      Blocked directory t a (.write above fault) after
  | file {fault : FileFault} {after : FileTree} (house : a.Housed directory t after)
      (fails : after.writeFile (a.path directory) (some a.text) = .error fault) :
      Blocked directory t a (.write (a.path directory) fault) after

namespace Compiler

variable {t : FileTree}

/-- All assets are written, or those before the first that cannot be. -/
inductive Emits (directory : Path) (t : FileTree) (as : List Asset) :
    Option BundleError → FileTree → Prop
  | all {after : FileTree} (written : Written directory t as after) :
      Emits directory t as none after
  | upTo {before later : List Asset} {a : Asset} {between after : FileTree} {e : BundleError}
      (assets : as = before ++ a :: later) (written : Written directory t before between)
      (blocked : Blocked directory between a e after) : Emits directory t as (some e) after

/-- Below directories that are there, the writing of a file decides how it goes on. -/
theorem emit_housed {directory : Path} {a : Asset} {housed : FileTree}
    (house : a.Housed directory t housed) (as : List Asset) :
    (∀ fault, housed.writeFile (a.path directory) (some a.text) = .error fault →
      emit directory t (a :: as) = (housed, some (.write (a.path directory) fault))) ∧
    ∀ next, housed.writeFile (a.path directory) (some a.text) = .ok next →
      emit directory t (a :: as) = emit directory next as := by
  unfold Asset.Housed at house
  cases hparent : (a.path directory).parent? with
  | some above =>
    rw [hparent] at house
    unfold Asset.path at hparent ⊢
    simp only [emit, hparent, house, Option.map_none]
    exact ⟨fun _ hfile => by rw [hfile], fun _ hfile => by rw [hfile]⟩
  | none =>
    rw [hparent] at house
    obtain rfl : housed = t := house
    unfold Asset.path at hparent ⊢
    simp only [emit, hparent]
    exact ⟨fun _ hfile => by rw [hfile], fun _ hfile => by rw [hfile]⟩

/-- The directories above an asset can be made, or it cannot be written. -/
theorem housed_or_blocked (directory : Path) (t : FileTree) (a : Asset) (as : List Asset) :
    (∃ housed, a.Housed directory t housed) ∨
      ∃ e after, emit directory t (a :: as) = (after, some e) ∧ Blocked directory t a e after := by
  unfold Asset.Housed
  cases hparent : (a.path directory).parent? with
  | none => exact .inl ⟨t, rfl⟩
  | some above =>
    rcases hmade : t.createDirectories above with ⟨made, _ | fault⟩
    · exact .inl ⟨made, hmade⟩
    · refine .inr ⟨_, _, ?_, .directory hparent hmade⟩
      unfold Asset.path at hparent
      simp only [emit, hparent, hmade, Option.map_some]

theorem emits_emit (directory : Path) (t : FileTree) (as : List Asset) :
    Emits directory t as (emit directory t as).2 (emit directory t as).1 := by
  induction as generalizing t with
  | nil => exact .all (.nil t)
  | cons a as ih =>
    rcases housed_or_blocked directory t a as with ⟨housed, house⟩ | ⟨e, after, heq, hblocked⟩
    · obtain ⟨herror, hok⟩ := emit_housed house as
      cases hfile : housed.writeFile (a.path directory) (some a.text) with
      | error fault =>
        rw [herror fault hfile]
        exact .upTo rfl (.nil t) (.file house hfile)
      | ok next =>
        rw [hok next hfile]
        have hrest := ih next
        generalize emit directory next as = r at hrest ⊢
        obtain ⟨after, blocked⟩ := r
        cases hrest with
        | all written => exact .all (.cons house hfile written)
        | upTo assets written blocked =>
          exact .upTo (by rw [assets, List.cons_append]) (.cons house hfile written) blocked
    · rw [heq]
      exact .upTo rfl (.nil t) hblocked

/-- What a pass makes of the files, and its result: nothing is written after a failure to build,
and there is a result only if every asset was written. -/
inductive Makes (c : Compiler) (t : FileTree) (touched : PathSet) :
    Except BundleError Stats → FileTree → Prop
  | unbuilt {e : BundleError} (build : Compilation.build c.options t = (touched, .error e)) :
      Makes c t touched (.error e) t
  | unwritten {s : Stats} {e : BundleError} {after : FileTree}
      (build : Compilation.build c.options t = (touched, .ok s))
      (emits : Emits c.options.outputDirectory t s.assets (some e) after) :
      Makes c t touched (.error e) after
  | written {s : Stats} {after : FileTree}
      (build : Compilation.build c.options t = (touched, .ok s))
      (emits : Emits c.options.outputDirectory t s.assets none after) :
      Makes c t touched (.ok s) after

theorem makes_buildAndEmit (c : Compiler) (t : FileTree) :
    c.Makes t (c.buildAndEmit t).2.1 (c.buildAndEmit t).2.2 (c.buildAndEmit t).1 := by
  unfold buildAndEmit
  rcases hbuild : Compilation.build c.options t with ⟨touched, e | s⟩
  · exact .unbuilt hbuild
  have hemits := emits_emit c.options.outputDirectory t s.assets
  dsimp only
  rcases hemit : emit c.options.outputDirectory t s.assets with ⟨after, _ | e⟩ <;>
    rw [hemit] at hemits
  · exact .written hbuild hemits
  · exact .unwritten hbuild hemits

/-! ## What others do -/

/-- The compiler with other reports waiting at its watcher. -/
def pend (c : Compiler) (pending : List Path) : Compiler :=
  { c with backend := c.backend.map fun b => { b with watcher := { b.watcher with pending } } }

end Compiler

/-- Others did it, or reported it to the watcher. -/
def Sight.isOutside (s : Sight) : Bool :=
  match s.event with
  | .batch _ | .touch .. => true
  | _ => false

/-- A result was handed over. -/
def Sight.isReport (s : Sight) : Bool :=
  match s.event with
  | .report _ => true
  | _ => false

theorem FileTree.events_sights (t : FileTree) (events : List Event) :
    (t.sights events).map Sight.event = events := by
  simp [sights, Function.comp_def]

theorem countP_outside {seen : List Sight} (h : ∀ s ∈ seen, s.isOutside = true) :
    seen.countP Sight.isReport = 0 := by
  rw [List.countP_eq_zero]
  rintro ⟨e, t⟩ hs
  have hs := h _ hs
  cases e <;> first | exact Bool.false_ne_true | cases hs

namespace Compiler

theorem backend_pend {c : Compiler} {b : Backend} (h : c.backend = some b) (pending : List Path) :
    (c.pend pending).backend = some { b with watcher := { b.watcher with pending } } := by
  rw [pend, h]
  rfl

theorem pend_pend (c : Compiler) (ps qs : List Path) : (c.pend ps).pend qs = c.pend qs := by
  obtain ⟨_, _, _, _ | b, _⟩ := c <;> rfl

theorem exists_pend (c : Compiler) : ∃ ps, c.pend ps = c := by
  obtain ⟨_, _, _, _ | b, _⟩ := c
  · exact ⟨[], rfl⟩
  · exact ⟨b.watcher.pending, rfl⟩

theorem exists_touch (c : Compiler) (p : Path) : ∃ ps, (c.touch p).1 = c.pend ps := by
  obtain ⟨_, _, _, _ | b, _⟩ := c
  · exact ⟨[], rfl⟩
  · simp only [touch, Watcher.touch]
    split
    · exact ⟨b.watcher.pending ++ [p], rfl⟩
    · exact ⟨b.watcher.pending, rfl⟩

theorem exists_collect (c : Compiler) : ∃ ps, c.collect.1 = c.pend ps := by
  obtain ⟨_, _, _, _ | b, _⟩ := c <;> exact ⟨[], rfl⟩

/-- What others do changes the files and what is reported, and nothing else. -/
theorem undergo_eq (c : Compiler) (t : FileTree) (batch : List Change) :
    ∃ ps events, c.undergo t batch = (c.pend ps, batch.foldl Change.applyTo t, events) ∧
      ∀ t' : FileTree, ∀ s ∈ t'.sights events, s.isOutside = true := by
  induction batch generalizing c t with
  | nil =>
    obtain ⟨ps, hps⟩ := c.exists_pend
    exact ⟨ps, [], by rw [hps]; rfl, by simp [FileTree.sights]⟩
  | cons change batch ih =>
    cases change with
    | touch p =>
      obtain ⟨ps, hps⟩ := c.exists_touch p
      obtain ⟨qs, events, heq, hevents⟩ := ih (c.touch p).1 t
      refine ⟨qs, .touch p (c.touch p).2 :: events, ?_, fun t' =>
        List.forall_mem_cons.mpr ⟨rfl, hevents t'⟩⟩
      rw [hps, pend_pend] at heq
      simp only [undergo, hps, heq]
      rfl
    | _ => exact ih c _

/-- The same for what taps do, one after the other; no result is handed over meanwhile. -/
theorem undergoCalls_eq (c : Compiler) (t : FileTree) (calls : List TapCall) :
    ∃ ps seen, c.undergoCalls t calls
        = (c.pend ps, (calls.flatMap TapCall.changes).foldl Change.applyTo t, seen) ∧
      seen.countP Sight.isReport = 0 := by
  induction calls generalizing c t with
  | nil =>
    obtain ⟨ps, hps⟩ := c.exists_pend
    exact ⟨ps, [], by rw [hps]; rfl, rfl⟩
  | cons call calls ih =>
    obtain ⟨ps, events, hundergo, hevents⟩ := c.undergo_eq t call.changes
    obtain ⟨qs, seen, hrest, hseen⟩ := ih (c.pend ps) (call.changes.foldl Change.applyTo t)
    rw [pend_pend] at hrest
    let next := call.changes.foldl Change.applyTo t
    refine ⟨qs, ⟨.tap call, t⟩ :: (next.sights events ++ seen), ?_, ?_⟩
    · rw [undergoCalls, hundergo]
      dsimp only
      rw [hrest, List.flatMap_cons, List.foldl_append]
    · rw [List.countP_cons, List.countP_append, countP_outside (hevents _), hseen]
      rfl

theorem countP_undergo {c c' : Compiler} {t t' : FileTree} {batch : List Change}
    {events : List Event} (h : c.undergo t batch = (c', t', events)) (after : FileTree) :
    (after.sights events).countP Sight.isReport = 0 := by
  obtain ⟨_, _, heq, hevents⟩ := c.undergo_eq t batch
  obtain rfl : _ = events := congrArg (·.2.2) (heq.symm.trans h)
  exact countP_outside (hevents after)

theorem countP_undergoCalls {c c' : Compiler} {t t' : FileTree} {calls : List TapCall}
    {seen : List Sight} (h : c.undergoCalls t calls = (c', t', seen)) :
    seen.countP Sight.isReport = 0 := by
  obtain ⟨_, _, heq, hseen⟩ := c.undergoCalls_eq t calls
  obtain rfl : _ = seen := congrArg (·.2.2) (heq.symm.trans h)
  exact hseen

/-! ## Passes -/

/-- A pass: what is built is written, and only then is the result handed over, once, to others who
may change the files and report to the watcher; then the watcher is asked for the files that the
pass looked at, and then the taps for its end are called, which may do the same as those others.
The compiler itself writes nothing else. -/
inductive Passes (c : Compiler) (callback : Callback) (t : FileTree) (changed : List Path) :
    Outcome → Prop
  | mk {touched : PathSet} {result : Except BundleError Stats} {built handed after : FileTree}
      {pending pending' : List Path} {events : List Event} {armed : Compiler}
      {requests : List WatchRequest} {calls : List TapCall} {failure : Option HookError}
      {seen : List Sight} (makes : c.Makes t touched result built)
      (hands : c.undergo built (callback c.doneHook.calls result)
        = (c.pend pending, handed, events))
      (arms : (c.pend pending).rearmed touched changed = (armed, requests))
      (fires : c.doneHook.Fires calls failure)
      (taps : { armed with doneHook := c.doneHook.called }.undergoCalls handed calls
        = ({ armed with doneHook := c.doneHook.called }.pend pending', after, seen)) :
      Passes c callback t changed
        ⟨{ armed with doneHook := c.doneHook.called }.pend pending', after,
          ⟨.report result, built⟩ :: (handed.sights (events ++ requests.map .request) ++ seen),
          failure⟩

theorem rearmed_doneHook (c : Compiler) (touched : PathSet) (changed : List Path) :
    (c.rearmed touched changed).1.doneHook = c.doneHook := by
  unfold rearmed
  split <;> rfl

theorem rearmed_runHook (c : Compiler) (touched : PathSet) (changed : List Path) :
    (c.rearmed touched changed).1.runHook = c.runHook := by
  unfold rearmed
  split <;> rfl

theorem passes_pass (c : Compiler) (callback : Callback) (t : FileTree) (changed : List Path) :
    c.Passes callback t changed (c.pass callback t changed) := by
  have hmakes := makes_buildAndEmit c t
  unfold pass
  rcases hbuild : c.buildAndEmit t with ⟨built, touched, result⟩
  rw [hbuild] at hmakes
  obtain ⟨ps, events, hhands, -⟩ := c.undergo_eq built (callback c.doneHook.calls result)
  generalize (callback c.doneHook.calls result).foldl Change.applyTo built = handed at hhands
  have hhook := (c.pend ps).rearmed_doneHook touched changed
  rcases harms : (c.pend ps).rearmed touched changed with ⟨armed, requests⟩
  rw [harms] at hhook
  replace hhook : armed.doneHook = c.doneHook := hhook
  obtain ⟨qs, seen, htaps, -⟩ :=
    { armed with doneHook := c.doneHook.called }.undergoCalls_eq handed c.doneHook.call.2.1
  have hcalled : c.doneHook.call.1 = c.doneHook.called := rfl
  simp only [hhands, harms, hhook, hcalled, htaps]
  exact .mk hmakes hhands harms c.doneHook.call_fires htaps

/-! ## Calls -/

variable {c : Compiler} {t : FileTree} {o : Outcome} {changed : List Path} {callback : Callback}

/-- One pass after the other, as long as no tap fails. Between two passes others change the files
and report to the watcher, in their turn, and the compiler does nothing. -/
inductive Course (callback : Callback) :
    Compiler → FileTree → List Path → List Change → Outcome → Prop
  | failed {c : Compiler} {t : FileTree} {changed : List Path} {o : Outcome} {e : HookError}
      (pass : c.Passes callback t changed o) (failure : o.failure = some e)
      (changes : List Change) : Course callback c t changed changes o
  | last {c : Compiler} {t : FileTree} {changed pending : List Path} {o : Outcome}
      {changes : List Change} {seen : List Sight} (pass : c.Passes callback t changed o)
      (success : o.failure = none) (outside : ∀ s ∈ seen, s.isOutside = true) :
      Course callback c t changed changes
        ⟨o.compiler.pend pending, changes.foldl Change.applyTo o.tree, o.seen ++ seen, none⟩
  | next {c : Compiler} {t : FileTree} {changed pending changed' : List Path} {o o' : Outcome}
      {changes later : List Change} {seen : List Sight} (pass : c.Passes callback t changed o)
      (success : o.failure = none) (outside : ∀ s ∈ seen, s.isOutside = true)
      (course : Course callback (o.compiler.pend pending)
        (changes.foldl Change.applyTo o.tree) changed' later o') :
      Course callback c t changed (changes ++ later)
        { o' with seen := o.seen ++ (seen ++ o'.seen) }

/-- The taps for the start of a call are called, up to the first that fails; they may change the
files and report to the watcher, and the compiler does nothing. -/
inductive Opens (c : Compiler) (t : FileTree) (failure : Option HookError) :
    Compiler → FileTree → List Sight → Prop
  | mk {calls : List TapCall} {pending : List Path} {seen : List Sight}
      (fires : c.runHook.Fires calls failure)
      (taps : { c with runHook := c.runHook.called }.undergoCalls t calls
        = ({ c with runHook := c.runHook.called }.pend pending,
          (calls.flatMap TapCall.changes).foldl Change.applyTo t, seen)) :
      Opens c t failure ({ c with runHook := c.runHook.called }.pend pending)
        ((calls.flatMap TapCall.changes).foldl Change.applyTo t) seen

/-- A call: the taps for its start are called, and if one of them fails, then nothing else is done;
otherwise it goes on with the files as they are then, after what was seen. -/
inductive Starts (c : Compiler) (t : FileTree)
    (goesOn : Compiler → FileTree → List Sight → Outcome → Prop) : Outcome → Prop
  | refused {c' : Compiler} {t' : FileTree} {seen : List Sight} {e : HookError}
      (opens : c.Opens t (some e) c' t' seen) : Starts c t goesOn ⟨c', t', seen, some e⟩
  | started {c' : Compiler} {t' : FileTree} {seen : List Sight} {o : Outcome}
      (opens : c.Opens t none c' t' seen) (rest : goesOn c' t' seen o) :
      Starts c t goesOn { o with seen := seen ++ o.seen }

theorem starts_run (c : Compiler) (callback : Callback) (t : FileTree) :
    c.Starts t (fun c t _ => c.Passes callback t []) (c.run callback t) := by
  have hfires := c.runHook.call_fires
  unfold run
  rcases hcall : c.runHook.call with ⟨hook, calls, failure⟩
  obtain rfl : c.runHook.called = hook := congrArg Prod.fst hcall
  rw [hcall] at hfires
  obtain ⟨ps, seen, htaps, -⟩ := { c with runHook := c.runHook.called }.undergoCalls_eq t calls
  simp only [htaps]
  cases failure with
  | some e => exact .refused (.mk hfires htaps)
  | none => exact .started (.mk hfires htaps) (passes_pass ..)

/-- What the watching compiler does after a pass: nothing, or passes after changes by others. -/
theorem follow_course (c : Compiler) (callback : Callback) (t : FileTree) (index : Nat)
    (batches : List (List Change)) :
    ∃ pending changes seen, (∀ s ∈ seen, s.isOutside = true) ∧
      (changes = batches.flatten ∧
          c.follow callback t index batches
            = ⟨c.pend pending, changes.foldl Change.applyTo t, seen, none⟩ ∨
        ∃ later changed o, batches.flatten = changes ++ later ∧
          Course callback (c.pend pending) (changes.foldl Change.applyTo t) changed later o ∧
          c.follow callback t index batches = { o with seen := seen ++ o.seen }) := by
  induction batches generalizing c t index with
  | nil =>
    obtain ⟨ps, hps⟩ := c.exists_pend
    exact ⟨ps, [], [], by simp, .inl ⟨rfl, by rw [follow, hps]; rfl⟩⟩
  | cons batch batches ih =>
    obtain ⟨ps, events, hundergo, hevents⟩ := c.undergo_eq t batch
    obtain ⟨qs, hqs⟩ := (c.pend ps).exists_collect
    rw [pend_pend] at hqs
    generalize ht : batch.foldl Change.applyTo t = t₁ at hundergo
    have hseen : ∀ s ∈ t₁.sights (.batch index :: events), s.isOutside = true :=
      List.forall_mem_cons.mpr ⟨rfl, hevents t₁⟩
    unfold follow
    simp only [hundergo, hqs]
    split
    · -- nothing was reported
      obtain ⟨rs, changes, seen, houtside, hrest⟩ := ih (c.pend qs) t₁ (index + 1)
      rw [pend_pend] at hrest
      refine ⟨rs, batch ++ changes, t₁.sights (.batch index :: events) ++ seen,
        List.forall_mem_append.mpr ⟨hseen, houtside⟩, ?_⟩
      rw [List.foldl_append, ht]
      rcases hrest with ⟨rfl, heq⟩ | ⟨later, changed, o, hflatten, hcourse, heq⟩
      · exact .inl ⟨rfl, by rw [heq]⟩
      · exact .inr ⟨later, changed, o, by rw [List.flatten_cons, hflatten, List.append_assoc],
          hcourse, by rw [heq, List.append_assoc]⟩
    · refine ⟨qs, batch, _, hseen, .inr ⟨batches.flatten, (c.pend ps).collect.2, ?_⟩⟩
      rw [ht]
      have hpass := passes_pass (c.pend qs) callback t₁ (c.pend ps).collect.2
      generalize (c.pend qs).pass callback t₁ (c.pend ps).collect.2 = o at hpass ⊢
      split
      · next e hfailure => exact ⟨o, rfl, .failed hpass hfailure _, rfl⟩
      · next hsuccess =>
        obtain ⟨rs, changes, seen, houtside, hrest⟩ := ih o.compiler o.tree (index + 1)
        rcases hrest with ⟨rfl, heq⟩ | ⟨later, changed, o', hflatten, hcourse, heq⟩
        · exact ⟨_, rfl, .last hpass hsuccess houtside, by rw [heq, List.append_assoc]⟩
        · refine ⟨{ o' with seen := o.seen ++ (seen ++ o'.seen) }, rfl, ?_,
            by rw [heq, List.append_assoc]⟩
          rw [hflatten]
          exact .next hpass hsuccess houtside hcourse

/-- A call that watches starts as one that does not, and goes on unless a tap has failed. -/
theorem starts_watching {goesOn : Compiler → FileTree → List Sight → Outcome → Prop}
    {batches : List (List Change)}
    (hgoes : ∀ c' t' seen o, c.Opens t none c' t' seen → c'.Passes callback t' [] o →
      (∀ e, o.failure = some e → goesOn c' t' seen o) ∧
      (o.failure = none → goesOn c' t' seen { o.compiler.follow callback o.tree 0 batches with
        seen := o.seen ++ (o.compiler.follow callback o.tree 0 batches).seen })) :
    c.Starts t goesOn (c.watch callback t batches) := by
  have hstarts := c.starts_run callback t
  unfold watch
  generalize c.run callback t = r at hstarts ⊢
  cases hstarts with
  | refused opens => exact .refused opens
  | @started c' t' seen o opens pass =>
    obtain ⟨hfailed, hpassed⟩ := hgoes c' t' seen o opens pass
    dsimp only
    split
    · next e hfailure => exact .started (o := o) opens (hfailed e hfailure)
    · next hsuccess =>
      rw [List.append_assoc]
      exact .started opens (hpassed hsuccess)

theorem starts_watch (c : Compiler) (callback : Callback) (t : FileTree)
    (batches : List (List Change)) :
    c.Starts t (fun c t _ => Course callback c t [] batches.flatten)
      (c.watch callback t batches) := by
  refine starts_watching fun _ _ _ o _ pass =>
    ⟨fun e hfailure => .failed pass hfailure _, fun hsuccess => ?_⟩
  obtain ⟨ps, changes, seen, houtside, hrest⟩ := o.compiler.follow_course callback o.tree 0 batches
  rcases hrest with ⟨rfl, hrest⟩ | ⟨later, changed, o', hflatten, hlater, hrest⟩ <;> rw [hrest]
  · exact .last pass hsuccess houtside
  · rw [hflatten]
    exact .next pass hsuccess houtside hlater

/-! ## What comes of a call -/

/-- What comes of passes: the taps for the end of a pass are called once for each result that was
handed over, and there is a failure exactly if one of these taps fails. -/
structure Settles (c : Compiler) (o : Outcome) : Prop where
  runHook : o.compiler.runHook = c.runHook
  doneHook : o.compiler.doneHook =
    { c.doneHook with calls := c.doneHook.calls + o.seen.countP Sight.isReport }
  failure : o.failure.isSome = true ↔
    ∃ n, c.doneHook.calls ≤ n ∧ n < o.compiler.doneHook.calls ∧ c.doneHook.FailsAt n

theorem Passes.settles (h : c.Passes callback t changed o) :
    c.Settles o ∧ o.seen.countP Sight.isReport = 1 := by
  cases h with
  | @mk touched result built handed after pending pending' events armed requests calls failure seen
      makes hands arms fires taps =>
    have hrunHook := (c.pend pending).rearmed_runHook touched changed
    rw [arms] at hrunHook
    have hrequests : (handed.sights (requests.map .request)).countP Sight.isReport = 0 := by
      simp [FileTree.sights, List.countP_map, Function.comp_def, Sight.isReport]
    have hreports : (⟨.report result, built⟩ ::
        (handed.sights (events ++ requests.map .request) ++ seen)).countP Sight.isReport = 1 := by
      rw [List.countP_cons, List.countP_append, FileTree.sights, List.map_append,
        List.countP_append, ← FileTree.sights, ← FileTree.sights, countP_undergo hands, hrequests,
        countP_undergoCalls taps]
      rfl
    refine ⟨⟨hrunHook, ?_, ?_⟩, hreports⟩
    · rw [hreports]
      rfl
    · rw [fires.failure_iff]
      constructor
      · exact fun hfails => ⟨_, Nat.le_refl _, Nat.lt_succ_self _, hfails⟩
      · rintro ⟨n, hle, hlt, hfails⟩
        rwa [Nat.le_antisymm (Nat.le_of_lt_succ hlt) hle] at hfails

theorem Course.settles {changes : List Change} (h : Course callback c t changed changes o) :
    c.Settles o := by
  induction h with
  | failed pass failure changes => exact pass.settles.1
  | @last c t changed pending o changes seen pass success outside =>
    obtain ⟨⟨hrunHook, hdoneHook, hfailure⟩, -⟩ := pass.settles
    refine ⟨hrunHook, ?_, ?_⟩
    · rw [List.countP_append, countP_outside outside]
      exact hdoneHook
    · rwa [success] at hfailure
  | @next c t changed pending changed' o o' changes later seen pass success outside course ih =>
    obtain ⟨⟨hrunHook, hdoneHook, hfailure⟩, hone⟩ := pass.settles
    obtain ⟨hrunHook', hdoneHook', hfailure'⟩ := ih
    rw [hone] at hdoneHook
    have hdone : (o.compiler.pend pending).doneHook
      = { c.doneHook with calls := c.doneHook.calls + 1 } := hdoneHook
    rw [hdone] at hdoneHook' hfailure'
    refine ⟨hrunHook'.trans hrunHook, ?_, ?_⟩
    · simp only [List.countP_append, countP_outside outside, hone, hdoneHook']
      congr 1
      omega
    · have hsucceeds : ¬ c.doneHook.FailsAt c.doneHook.calls := by
        intro hfails
        rw [success, hdoneHook] at hfailure
        cases hfailure.mpr ⟨_, Nat.le_refl _, Nat.lt_succ_self _, hfails⟩
      refine hfailure'.trans ⟨?_, ?_⟩
      · rintro ⟨n, hle, hlt, hfails⟩
        exact ⟨n, Nat.le_of_succ_le hle, hlt, hfails⟩
      · rintro ⟨n, hle, hlt, hfails⟩
        refine ⟨n, Nat.lt_of_le_of_ne hle ?_, hlt, hfails⟩
        rintro rfl
        exact hsucceeds hfails

/-- What comes of a call: the taps for its start are called once, those for the end of a pass once
for each result that was handed over, and there is a failure exactly if a tap fails. -/
structure Answers (c : Compiler) (o : Outcome) : Prop where
  runHook : o.compiler.runHook = c.runHook.called
  doneHook : o.compiler.doneHook =
    { c.doneHook with calls := c.doneHook.calls + o.seen.countP Sight.isReport }
  failure : o.failure.isSome = true ↔ c.runHook.FailsAt c.runHook.calls ∨
    ∃ n, c.doneHook.calls ≤ n ∧ n < o.compiler.doneHook.calls ∧ c.doneHook.FailsAt n

theorem Starts.answers {goesOn : Compiler → FileTree → List Sight → Outcome → Prop}
    (h : c.Starts t goesOn o) (hsettles : ∀ c t seen o, goesOn c t seen o → c.Settles o) :
    c.Answers o := by
  cases h with
  | refused opens =>
    obtain ⟨fires, taps⟩ := opens
    refine ⟨rfl, ?_, iff_of_true rfl (.inl (fires.failure_iff.mp rfl))⟩
    rw [countP_undergoCalls taps]
    rfl
  | started opens rest =>
    obtain ⟨fires, taps⟩ := opens
    obtain ⟨hrunHook, hdoneHook, hfailure⟩ := hsettles _ _ _ _ rest
    have hsucceeds : ¬ c.runHook.FailsAt c.runHook.calls := fun hfails => by
      cases fires.failure_iff.mpr hfails
    refine ⟨hrunHook, ?_, hfailure.trans (or_iff_right hsucceeds).symm⟩
    rw [List.countP_append, countP_undergoCalls taps, Nat.zero_add]
    exact hdoneHook

/-- What a call does, whatever fails, and whatever the taps and those who are handed a result do to
the files or report: the taps for its start are called in their order up to the first that fails,
and then nothing else is done; otherwise there is a pass, and if the compiler watches, one after
changes of watched files, as long as no tap fails. There is a failure exactly if a tap fails, since
all others are handed over. -/
theorem course_of_call (c : Compiler) (callback : Callback) (t : FileTree) :
    c.Starts t (fun c t _ => c.Passes callback t []) (c.run callback t) ∧
    c.Answers (c.run callback t) ∧
    ∀ batches : List (List Change),
      c.Starts t (fun c t _ => Course callback c t [] batches.flatten)
        (c.watch callback t batches) ∧
      c.Answers (c.watch callback t batches) :=
  ⟨c.starts_run callback t, (c.starts_run callback t).answers fun _ _ _ _ h => h.settles.1,
    fun batches => ⟨c.starts_watch callback t batches,
      (c.starts_watch callback t batches).answers fun _ _ _ _ h => h.settles⟩⟩

end Compiler
end ModuleBundler
