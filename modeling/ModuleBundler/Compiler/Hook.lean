import ModuleBundler.Error
import ModuleBundler.FileTree.Change

/-! Points in the life of a compiler at which others can have their say. -/
namespace ModuleBundler

/-- Something that is done at a hook. -/
structure Tap where
  name : String
  /-- What it puts into the log. -/
  note : Option String := none
  /-- What it does to the files, and what it reports, when the hook was called so many times
  before. -/
  changes : Nat → List Change := fun _ => []
  /-- The reason why it fails in the end, if it does. -/
  failure : Nat → Option String := fun _ => none

/-- A point with its taps, in the order in which they came. -/
structure Hook where
  name : String
  taps : List Tap := []
  /-- How many times it was called. -/
  calls : Nat := 0

/-- A tap was called. -/
structure TapCall where
  hook : String
  tap : String
  note : Option String
  /-- What it did. -/
  changes : List Change
  deriving DecidableEq, Repr

namespace Hook

/-- The hook with one more tap. -/
def tap (h : Hook) (t : Tap) : Hook := { h with taps := h.taps ++ [t] }

/-- Calls taps up to the first one that fails. -/
def callTaps (hook : String) (calls : Nat) : List Tap → List TapCall × Option HookError
  | [] => ([], none)
  | t :: ts =>
    let call : TapCall := ⟨hook, t.name, t.note, t.changes calls⟩
    match t.failure calls with
    | some reason => ([call], some ⟨hook, t.name, reason⟩)
    | none =>
      let (others, failure) := callTaps hook calls ts
      (call :: others, failure)

/-- Calls all taps, up to the first one that fails. -/
def call (h : Hook) : Hook × List TapCall × Option HookError :=
  ({ h with calls := h.calls + 1 }, callTaps h.name h.calls h.taps)

/-- All taps are called if none fails. -/
theorem callTaps_of_no_failure {hook : String} {calls : Nat} {ts : List Tap}
    (h : ∀ t ∈ ts, t.failure calls = none) :
    callTaps hook calls ts = (ts.map fun t => ⟨hook, t.name, t.note, t.changes calls⟩, none) := by
  induction ts with
  | nil => rfl
  | cons t ts ih => simp_all [callTaps]

/-- A failure is that of a tap. -/
theorem exists_of_callTaps {hook : String} {calls : Nat} {ts : List Tap} {e : HookError}
    (h : (callTaps hook calls ts).2 = some e) :
    ∃ t ∈ ts, t.failure calls = some e.reason ∧ e.tap = t.name := by
  induction ts with
  | nil => simp [callTaps] at h
  | cons t ts ih =>
    unfold callTaps at h
    split at h
    · next reason hr =>
      simp only [Option.some.injEq] at h
      subst h
      exact ⟨t, by simp, hr, rfl⟩
    · obtain ⟨u, hu, hf⟩ := ih h
      exact ⟨u, by simp [hu], hf⟩

end Hook

/-- Taps for the hooks of a compiler, which come together. -/
structure Plugin where
  name : String
  /-- What it puts into the log when it is applied. -/
  note : Option String := none
  run : List Tap := []
  done : List Tap := []

namespace Plugin

/-- Does nothing but mark the start of a run. -/
def runLogger : Plugin := { name := "RunLoggerPlugin", run := [{ name := "RunLoggerPlugin" }] }

/-- Does nothing but mark the end of a pass. -/
def doneLogger : Plugin := { name := "DoneLoggerPlugin", done := [{ name := "DoneLoggerPlugin" }] }

end Plugin
end ModuleBundler
