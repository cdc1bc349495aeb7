import ModuleBundler.Bundle.Compilation
import ModuleBundler.Compiler.Hook
import ModuleBundler.Compiler.Watcher
import ModuleBundler.FileTree.Change

/-! A compiler: it runs passes, writes what they give, and sees to it that the files they looked
at are watched. -/
namespace ModuleBundler

/-- A compiler between two runs. -/
structure Compiler where
  /-- Their context is absolute and without links. -/
  options : Options
  runHook : Hook
  doneHook : Hook
  backend : Option Backend
  /-- The files that it believes are watched. -/
  watched : PathSet

/-- What can be seen while a compiler works. -/
inductive Event where
  /-- A plugin was applied. -/
  | apply (plugin : String) (note : Option String)
  | tap (call : TapCall)
  /-- The result of a pass was handed over. -/
  | report (result : Except BundleError Stats)
  /-- The watcher was asked for something. -/
  | request (request : WatchRequest)
  /-- A batch of changes began. -/
  | batch (index : Nat)
  /-- A change was reported; the watcher took it or did not. -/
  | touch (p : Path) (accepted : Bool)

/-- What was seen, and the files as they were then. -/
structure Sight where
  event : Event
  tree : FileTree

/-- What was seen in turn while the files were these. -/
def FileTree.sights (t : FileTree) (events : List Event) : List Sight := events.map (⟨·, t⟩)

/-- What comes of a run: the compiler and the files afterwards, what was seen, and the failure of
a hook if there was one. -/
structure Outcome where
  compiler : Compiler
  tree : FileTree
  seen : List Sight
  failure : Option HookError

/-- What is done when the result of a pass is handed over, after so many other passes: the files
may change, and reports may come. -/
abbrev Callback := Nat → Except BundleError Stats → List Change

/-- Does nothing with results. -/
def Callback.silent : Callback := fun _ _ => []

/-- What was seen, whatever the files were. -/
def Outcome.events (o : Outcome) : List Event := o.seen.map Sight.event

namespace Compiler

/-- A compiler for options, to which plugins are applied in their order. -/
def create (o : Options) (plugins : List Plugin) (backend : Option Backend) (t : FileTree) :
    Except BundleError (Compiler × List Event) := do
  (o.entry.validate).mapError .config
  let context ← (t.canonical o.context).mapError fun fault => .config (.context o.context fault)
  let compiler : Compiler := {
    options := { o with context }
    runHook := { name := "run", taps := plugins.flatMap (·.run) }
    doneHook := { name := "done", taps := plugins.flatMap (·.done) }
    backend
    watched := .empty }
  return (compiler, plugins.map fun p => .apply p.name p.note)

/-- Reports a change to the watcher, and says whether it was taken. -/
def touch (c : Compiler) (p : Path) : Compiler × Bool :=
  match c.backend with
  | none => (c, false)
  | some b =>
    let (watcher, accepted) := b.watcher.touch p
    ({ c with backend := some { b with watcher } }, accepted)

/-- The compiler and the files after changes, and what was seen of them. -/
def undergo (c : Compiler) (t : FileTree) : List Change → Compiler × FileTree × List Event
  | [] => (c, t, [])
  | .touch p :: changes =>
    let (c, accepted) := c.touch p
    let (c, t, events) := c.undergo t changes
    (c, t, .touch p accepted :: events)
  | change :: changes => c.undergo (change.applyTo t) changes

/-- What taps do when they are called one after the other, and what is seen of it. -/
def undergoCalls (c : Compiler) (t : FileTree) :
    List TapCall → Compiler × FileTree × List Sight
  | [] => (c, t, [])
  | call :: calls =>
    let (c, next, events) := c.undergo t call.changes
    let (c, after, seen) := c.undergoCalls next calls
    (c, after, ⟨.tap call, t⟩ :: (next.sights events ++ seen))

/-- A pass without hooks, of which nothing is written. -/
def compile (c : Compiler) (t : FileTree) : Except BundleError Stats :=
  (Compilation.build c.options t).2

/-- Writes assets below a directory, up to the first that cannot be written. -/
def emit (directory : Path) (t : FileTree) : List Asset → FileTree × Option BundleError
  | [] => (t, none)
  | asset :: assets =>
    let path := directory.push ⟨asset.filename⟩
    let (t, blocked) :=
      match path.parent? with
      | some above =>
        let (t, fault) := t.createDirectories above
        (t, fault.map (BundleError.write above))
      | none => (t, none)
    match blocked with
    | some e => (t, some e)
    | none =>
      match t.writeFile path (some asset.text) with
      | .error fault => (t, some (.write path fault))
      | .ok t => emit directory t assets

/-- What the watching of files comes to: the watcher, the files that are believed to be watched,
and what the watcher was asked for. -/
structure Rearmed where
  backend : Backend
  watched : PathSet
  requests : List WatchRequest

/-- Asks for something. -/
def Rearmed.ask (r : Rearmed) (request : WatchRequest) : Rearmed × Bool :=
  let (backend, done) := r.backend.ask request
  ({ r with backend, requests := r.requests ++ [request] }, done)

/-- Releases a file. -/
def Rearmed.release (r : Rearmed) (p : Path) : Rearmed := (r.ask (.unwatch p)).1

/-- Watches a file that a pass looked at. A file that was watched before is left alone unless it
changed: then its watch is renewed, because the file may be another one. -/
def Rearmed.arm (before : PathSet) (changed : List Path) (r : Rearmed) (p : Path) : Rearmed :=
  let isNew := !before.contains p
  let isReplaced := before.contains p && changed.contains p
  let r := if isReplaced then r.release p else r
  if isNew || isReplaced then
    let (r, done) := r.ask (.watch p)
    if done then { r with watched := r.watched.insert p } else r
  else { r with watched := r.watched.insert p }

/-- Watches the files that a pass looked at, and releases those that it did not. A pass that
looked at no file changes nothing if files are watched. -/
def rearm (b : Backend) (before touched : PathSet) (changed : List Path) : Rearmed :=
  if touched.isEmpty && !before.isEmpty then ⟨b, before, []⟩
  else
    let released := (before.diff touched).toList.foldl Rearmed.release ⟨b, .empty, []⟩
    touched.toList.foldl (Rearmed.arm before changed) released

/-- The compiler after a pass that looked at files, and what it asked its watcher for. -/
def rearmed (c : Compiler) (touched : PathSet) (changed : List Path) :
    Compiler × List WatchRequest :=
  match c.backend with
  | none => (c, [])
  | some b =>
    let r := rearm b c.watched touched changed
    ({ c with backend := some r.backend, watched := r.watched }, r.requests)

/-- Builds, and writes what was built. -/
def buildAndEmit (c : Compiler) (t : FileTree) : FileTree × PathSet × Except BundleError Stats :=
  match Compilation.build c.options t with
  | (touched, .error e) => (t, touched, .error e)
  | (touched, .ok stats) =>
    match emit c.options.outputDirectory t stats.assets with
    | (t, some e) => (t, touched, .error e)
    | (t, none) => (t, touched, .ok stats)

/-- A pass: it builds and writes, hands the result over, watches the files that it looked at, and
calls the hook for its end. -/
def pass (c : Compiler) (callback : Callback) (t : FileTree) (changed : List Path) : Outcome :=
  let (built, touched, result) := c.buildAndEmit t
  let (c, t, events) := c.undergo built (callback c.doneHook.calls result)
  let (c, requests) := c.rearmed touched changed
  let (doneHook, calls, failure) := c.doneHook.call
  let (c, after, seen) := { c with doneHook }.undergoCalls t calls
  { compiler := c
    tree := after
    seen := ⟨.report result, built⟩ :: (t.sights (events ++ requests.map .request) ++ seen)
    failure }

/-- Calls the hook for the start, and runs a pass if no tap fails. -/
def run (c : Compiler) (callback : Callback) (t : FileTree) : Outcome :=
  let (runHook, calls, failure) := c.runHook.call
  let (c, t, seen) := { c with runHook }.undergoCalls t calls
  match failure with
  | some e => ⟨c, t, seen, some e⟩
  | none =>
    let o := c.pass callback t []
    { o with seen := seen ++ o.seen }

end Compiler
end ModuleBundler
