import ModuleBundler.Path.Set

/-! Watching files, and the changes that are reported about them. -/
namespace ModuleBundler

/-- The files that are watched, and the reports that nobody has taken. -/
structure Watcher where
  watched : PathSet
  pending : List Path

namespace Watcher

/-- Nothing is watched. -/
def empty : Watcher := ⟨.empty, []⟩

/-- Starts to watch a file. -/
def watch (w : Watcher) (p : Path) : Watcher := { w with watched := w.watched.insert p }

/-- Stops watching a file. -/
def unwatch (w : Watcher) (p : Path) : Watcher := { w with watched := w.watched.erase p }

/-- Reports a change of a file if it is watched, and says whether it is. -/
def touch (w : Watcher) (p : Path) : Watcher × Bool :=
  if w.watched.contains p then ({ w with pending := w.pending ++ [p] }, true) else (w, false)

/-- Takes the oldest report. -/
def next (w : Watcher) : Watcher × Option Path :=
  match w.pending with
  | [] => (w, none)
  | p :: ps => ({ w with pending := ps }, some p)

/-- Takes all reports: the files that they are about, each once. -/
def collect (w : Watcher) : Watcher × List Path :=
  ({ w with pending := [] }, (PathSet.ofList w.pending).toList)

@[simp] theorem pending_collect (w : Watcher) : w.collect.1.pending = [] := rfl

@[simp] theorem watched_collect (w : Watcher) : w.collect.1.watched = w.watched := rfl

theorem touch_snd (w : Watcher) (p : Path) : (w.touch p).2 = w.watched.contains p := by
  unfold touch
  split <;> simp_all

end Watcher

/-- What a watcher can be asked for. -/
inductive WatchRequest where
  | watch (p : Path)
  | unwatch (p : Path)
  deriving DecidableEq, Repr

/-- A watcher that may refuse what it is asked for. -/
structure Backend where
  watcher : Watcher
  /-- How many requests there were. -/
  requests : Nat
  /-- Whether a request is refused, of which so many came before. -/
  refuses : Nat → WatchRequest → Bool

namespace Backend

/-- Does what is asked for, unless it refuses, and says whether it was done. -/
def ask (b : Backend) (r : WatchRequest) : Backend × Bool :=
  let next := { b with requests := b.requests + 1 }
  if b.refuses b.requests r then (next, false)
  else
    match r with
    | .watch p => ({ next with watcher := b.watcher.watch p }, true)
    | .unwatch p => ({ next with watcher := b.watcher.unwatch p }, true)

/-- What is watched after a request. -/
theorem ask_watched (b : Backend) (r : WatchRequest) :
    (b.ask r).1.watcher.watched =
      if (b.ask r).2 then
        match r with
        | .watch p => b.watcher.watched.insert p
        | .unwatch p => b.watcher.watched.erase p
      else b.watcher.watched := by
  unfold ask
  split
  · simp
  · cases r <;> rfl

end Backend
end ModuleBundler
