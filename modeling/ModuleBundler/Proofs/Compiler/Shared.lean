import Mathlib.Data.List.Induction
import Mathlib.Logic.Function.Basic
import ModuleBundler.Proofs.Compiler.Watched

/-! A watcher with many handles, which are used at the same time: the watcher is locked for one step
of one handle, and between two steps of a handle the others may do anything. No report of a change
is lost, and none is taken twice. -/
namespace ModuleBundler

namespace Watcher

/-- The watcher after a request that is not refused. -/
def obey (w : Watcher) : WatchRequest → Watcher
  | .watch p => w.watch p
  | .unwatch p => w.unwatch p

/-- To look for one report, or to collect reports until there are no more. -/
inductive Task where
  | one
  | all
  deriving DecidableEq

/-- What a handle is used for: nothing, or it has taken some reports, and has waited if it found
none when it looked last. -/
inductive Doing where
  | idle
  | busy (task : Task) (taken : List Path) (waited : Bool)

/-- What has been taken but not yet given back. -/
def Doing.taken : Doing → List Path
  | idle => []
  | busy _ taken _ => taken

/-- What happens at a watcher. -/
inductive Deed where
  | request (r : WatchRequest)
  | touch (p : Path) (accepted : Bool)
  /-- A report is taken with a handle. -/
  | take (handle : Nat) (p : Path)
  /-- What comes of looking for one report. -/
  | next (handle : Nat) (answer : Option Path)
  /-- What comes of collecting reports. -/
  | batch (handle : Nat) (answer : List Path)
  deriving DecidableEq

/-- A watcher, and what its handles are used for. -/
structure Site where
  watcher : Watcher
  doing : Nat → Doing

/-- The same watcher, with another use of a handle. -/
def Site.set (s : Site) (i : Nat) (d : Doing) : Site :=
  { s with doing := Function.update s.doing i d }

/-- One step with a handle, which happens while the watcher is locked. Who finds no report waits,
and looks again; who collects goes on until there is no report even then. -/
inductive Acts (i : Nat) (s : Site) : List Deed → Site → Prop
  | request (r : WatchRequest) (idle : s.doing i = .idle) :
      Acts i s [.request r] { s with watcher := s.watcher.obey r }
  | touch (p : Path) (idle : s.doing i = .idle) :
      Acts i s [.touch p (s.watcher.touch p).2] { s with watcher := (s.watcher.touch p).1 }
  | start (task : Task) (idle : s.doing i = .idle) : Acts i s [] (s.set i (.busy task [] false))
  | take {task : Task} {taken : List Path} {waited : Bool} {w : Watcher} {p : Path}
      (busy : s.doing i = .busy task taken waited) (wants : task = .one → taken = [])
      (next : s.watcher.next = (w, some p)) :
      Acts i s [.take i p] ({ s with watcher := w }.set i (.busy task (taken ++ [p]) false))
  | wait {task : Task} {taken : List Path} (busy : s.doing i = .busy task taken false)
      (wants : task = .one → taken = []) (next : s.watcher.next.2 = none) :
      Acts i s [] (s.set i (.busy task taken true))
  | found {p : Path} {waited : Bool} (busy : s.doing i = .busy .one [p] waited) :
      Acts i s [.next i (some p)] (s.set i .idle)
  | missed (busy : s.doing i = .busy .one [] true) (next : s.watcher.next.2 = none) :
      Acts i s [.next i none] (s.set i .idle)
  | closed {taken : List Path} (busy : s.doing i = .busy .all taken true)
      (next : s.watcher.next.2 = none) :
      Acts i s [.batch i (PathSet.ofList taken).toList] (s.set i .idle)

/-- What has happened at a watcher at which nothing was watched in the beginning, in any order of
the steps with its handles. -/
inductive Shared : List Deed → Site → Prop
  | start : Shared [] ⟨.empty, fun _ => .idle⟩
  | step {history es : List Deed} {s s' : Site} {i : Nat} (shared : Shared history s)
      (acts : Acts i s es s') : Shared (history ++ es) s'

/-! ## What is known from what happened -/

/-- What a request asks for about a file. -/
def Deed.asks (p : Path) : Deed → Option Bool
  | .request r => if p == r.path then some r.isWatch else none
  | _ => none

/-- Whether the last request about a file asked for it to be watched. -/
def isWatched (history : List Deed) (p : Path) : Bool :=
  history.foldl (fun watched e => (e.asks p).getD watched) false

/-- The reports that were accepted. -/
def accepted (history : List Deed) : List Path :=
  history.filterMap fun
    | .touch p true => some p
    | _ => none

/-- The reports that were taken, with whatever handle. -/
def taken (history : List Deed) : List Path :=
  history.filterMap fun
    | .take _ p => some p
    | _ => none

/-- The reports that were taken: those that were given back, and the others with their handles. -/
structure Ledger where
  given : List Path
  held : List (Nat × Path)

namespace Ledger

/-- The reports that were taken with a handle but not yet given back. -/
def heldBy (l : Ledger) (i : Nat) : List Path := (l.held.filter (·.1 == i)).map Prod.snd

/-- What comes of looking or collecting is all that was taken for it. -/
def after (l : Ledger) : Deed → Ledger
  | .take i p => { l with held := l.held ++ [(i, p)] }
  | .next i _ | .batch i _ => ⟨l.given ++ l.heldBy i, l.held.filter (·.1 != i)⟩
  | _ => l

end Ledger

/-- The reports that were taken by now. -/
def ledger (history : List Deed) : Ledger := history.foldl Ledger.after ⟨[], []⟩

/-- What has happened since something was collected with a handle. -/
def since (i : Nat) (history : List Deed) : List Deed :=
  history.foldl (fun es e =>
    match e with
    | .batch j _ => if j = i then [] else es ++ [e]
    | _ => es ++ [e]) []

/-- What has happened decides what is watched; reports are taken in the order in which they were
accepted, and the others are pending; and a handle holds what it has taken. -/
structure Kept (history : List Deed) (s : Site) : Prop where
  watched : ∀ p, s.watcher.watched.contains p = isWatched history p
  order : accepted history = taken history ++ s.watcher.pending
  held : ∀ i, (ledger history).heldBy i = (s.doing i).taken

/-- What is to be seen at a watcher, given what has happened before. -/
def Lawful (past : List Deed) : Deed → Prop
  | .request _ => True
  | .touch p accepted => accepted = isWatched past p
  -- the oldest report that nobody has taken
  | .take _ p => ∃ later, accepted past = taken past ++ p :: later
  | .next i answer =>
    (ledger past).heldBy i = answer.toList ∧ (answer = none → accepted past = taken past)
  | .batch i answer =>
    accepted past = taken past ∧ answer.Pairwise (fun p q => p.compare q = .lt) ∧
    (∀ q, answer.contains q = ((ledger past).heldBy i).contains q) ∧
    -- all that was accepted, except for what was given back before
    ((∀ held ∈ (ledger past).held, held.1 = i) →
      (accepted past).Perm ((ledger past).given ++ (ledger past).heldBy i))

variable {history es : List Deed} {s s' : Site} {i j : Nat}

theorem next_eq {w w' : Watcher} {p : Path} (h : w.next = (w', some p)) :
    w.pending = p :: w'.pending ∧ w'.watched = w.watched := by
  unfold next at h
  split at h
  · cases h
  · next ps hpending =>
    cases h
    exact ⟨hpending, rfl⟩

theorem pending_of_next {w : Watcher} (h : w.next.2 = none) : w.pending = [] := by
  unfold next at h
  split at h
  · assumption
  · cases h

theorem isWatched_concat (history : List Deed) (e : Deed) (p : Path) :
    isWatched (history ++ [e]) p = (e.asks p).getD (isWatched history p) := by
  simp [isWatched]

theorem ledger_concat (history : List Deed) (e : Deed) :
    ledger (history ++ [e]) = (ledger history).after e := by
  simp [ledger]

theorem accepted_append (history es : List Deed) :
    accepted (history ++ es) = accepted history ++ accepted es := List.filterMap_append

theorem taken_append (history es : List Deed) :
    taken (history ++ es) = taken history ++ taken es := List.filterMap_append

namespace Ledger

variable (l : Ledger) (i j : Nat)

theorem heldBy_take (p : Path) :
    (l.after (.take i p)).heldBy j = if j = i then l.heldBy j ++ [p] else l.heldBy j := by
  by_cases h : j = i
  · simp [heldBy, after, h]
  · simp [heldBy, after, h, Ne.symm h]

/-- What a handle holds is given back, and the rest stays. -/
theorem heldBy_filter (given : List Path) :
    Ledger.heldBy ⟨given, l.held.filter (·.1 != i)⟩ j = if j = i then [] else l.heldBy j := by
  by_cases h : j = i
  · simp [heldBy, h, List.filter_filter]
  · have hfilter : (l.held.filter (·.1 != i)).filter (·.1 == j) = l.held.filter (·.1 == j) := by
      rw [List.filter_filter]
      refine List.filter_congr fun x _ => ?_
      by_cases hx : x.1 = j <;> simp [hx, h]
    simp [heldBy, hfilter, h]

theorem given_perm : (l.given ++ l.held.map Prod.snd).Perm
    ((l.given ++ l.heldBy i) ++ (l.held.filter (·.1 != i)).map Prod.snd) := by
  rw [List.append_assoc]
  refine .append_left _ ?_
  rw [heldBy, ← List.map_append]
  exact ((List.filter_append_perm (·.1 == i) l.held).symm).map _

end Ledger

/-- A request is done as it was asked for. -/
theorem contains_obey (w : Watcher) (r : WatchRequest) (p : Path) :
    (w.obey r).watched.contains p = ((Deed.request r).asks p).getD (w.watched.contains p) := by
  cases r with
  | watch q =>
    cases h : p == q <;> simp [obey, watch, Deed.asks, WatchRequest.path, WatchRequest.isWatch,
      PathSet.contains_insert, h]
  | unwatch q =>
    cases h : p == q <;> simp [obey, unwatch, Deed.asks, WatchRequest.path, WatchRequest.isWatch,
      PathSet.contains_erase, h]

theorem pending_obey (w : Watcher) (r : WatchRequest) : (w.obey r).pending = w.pending := by
  cases r <;> rfl

theorem touch_eq (w : Watcher) (p : Path) : (w.touch p).1.watched = w.watched ∧
    (w.touch p).1.pending = w.pending ++ accepted [.touch p (w.touch p).2] := by
  unfold touch
  split
  · exact ⟨rfl, rfl⟩
  · exact ⟨rfl, (List.append_nil _).symm⟩

/-- Each report that was taken has been given back, once, or somebody holds it. -/
theorem taken_perm (history : List Deed) :
    (taken history).Perm ((ledger history).given ++ (ledger history).held.map Prod.snd) := by
  induction history using List.reverseRecOn with
  | nil => exact .refl _
  | append_singleton history e ih =>
    rw [taken_append, ledger_concat]
    cases e with
    | request | touch => simpa [taken, Ledger.after] using ih
    | take i p =>
      simp only [Ledger.after, List.map_append, ← List.append_assoc]
      exact ih.append_right _
    | next i | batch i =>
      refine (List.append_nil (taken history)).symm ▸ ih.trans ?_
      exact (ledger history).given_perm i

/-- What is known after one more deed. -/
theorem Kept.concat (hk : Kept history s) {e : Deed}
    (watched : ∀ p, s'.watcher.watched.contains p
      = (e.asks p).getD (s.watcher.watched.contains p))
    (order : s.watcher.pending ++ accepted [e] = taken [e] ++ s'.watcher.pending)
    (held : ∀ j, ((ledger history).after e).heldBy j = (s'.doing j).taken) :
    Kept (history ++ [e]) s' where
  watched p := by rw [isWatched_concat, watched, hk.watched]
  order := by
    rw [accepted_append, taken_append, hk.order, List.append_assoc, order, List.append_assoc]
  held j := by rw [ledger_concat, held]

theorem taken_set (s : Site) (i : Nat) (d : Doing) (j : Nat) :
    ((s.set i d).doing j).taken = if j = i then d.taken else (s.doing j).taken := by
  simp only [Site.set, Function.update_apply]
  split <;> rfl

/-- Nothing is known of a step in which nothing is taken or given back. -/
theorem Kept.set (hk : Kept history s) {d : Doing} (hd : d.taken = (s.doing i).taken) :
    Kept history (s.set i d) where
  watched := hk.watched
  order := hk.order
  held j := by
    rw [taken_set, hk.held, hd]
    split
    · next h => rw [h]
    · rfl

/-- What is known after something was given back. -/
theorem Kept.give (hk : Kept history s) {e : Deed}
    (he : (∃ answer, e = .next i answer) ∨ ∃ answer, e = .batch i answer) :
    Kept (history ++ [e]) (s.set i .idle) := by
  obtain ⟨answer, rfl⟩ | ⟨answer, rfl⟩ := he <;>
  · refine hk.concat (fun _ => rfl) (List.append_nil _) fun j => ?_
    rw [taken_set, ← hk.held]
    exact (ledger history).heldBy_filter i j _

/-- One step keeps what is known, and what is to be seen of it is as it should be. -/
theorem Kept.step (hk : Kept history s) (h : Acts i s es s') :
    Kept (history ++ es) s' ∧ ∀ e ∈ es, Lawful history e := by
  have hheld {d : Doing} (hd : s.doing i = d) : (ledger history).heldBy i = d.taken := by
    rw [hk.held, hd]
  have hnone (h : s.watcher.next.2 = none) : accepted history = taken history := by
    rw [hk.order, pending_of_next h, List.append_nil]
  cases h with
  | request r idle =>
    refine ⟨hk.concat (s.watcher.contains_obey r) ?_ hk.held, List.forall_mem_singleton.mpr trivial⟩
    simp [accepted, taken, pending_obey]
  | touch p idle =>
    obtain ⟨hsame, hpending⟩ := s.watcher.touch_eq p
    refine ⟨hk.concat (fun q => congrArg (PathSet.contains · q) hsame) hpending.symm hk.held,
      List.forall_mem_singleton.mpr ?_⟩
    exact (s.watcher.touch_snd p).trans (hk.watched p)
  | start task idle =>
    rw [List.append_nil]
    exact ⟨hk.set (by rw [idle]; rfl), by simp⟩
  | wait busy wants next =>
    rw [List.append_nil]
    exact ⟨hk.set (by rw [busy]; rfl), by simp⟩
  | @take task taken waited w p busy wants next =>
    obtain ⟨hpending, hsame⟩ := next_eq next
    refine ⟨hk.concat (fun q => congrArg (PathSet.contains · q) hsame) ?_ fun j => ?_,
      List.forall_mem_singleton.mpr ⟨w.pending, by rw [hk.order, hpending]⟩⟩
    · rw [hpending]
      exact List.append_nil _
    · rw [Ledger.heldBy_take, taken_set]
      split
      · next h => rw [h, hheld busy]; rfl
      · exact hk.held j
  | @found p waited busy =>
    exact ⟨hk.give (.inl ⟨_, rfl⟩),
      List.forall_mem_singleton.mpr ⟨hheld busy, fun h => by cases h⟩⟩
  | missed busy next =>
    exact ⟨hk.give (.inl ⟨_, rfl⟩),
      List.forall_mem_singleton.mpr ⟨hheld busy, fun _ => hnone next⟩⟩
  | @closed taken busy next =>
    refine ⟨hk.give (.inr ⟨_, rfl⟩), List.forall_mem_singleton.mpr ⟨hnone next,
      (PathSet.ofList taken).sorted, fun q => ?_, fun hmine => ?_⟩⟩
    · rw [hheld busy]
      exact PathSet.contains_ofList taken q
    · rw [hnone next]
      refine (taken_perm history).trans (.of_eq ?_)
      rw [Ledger.heldBy, List.filter_eq_self.mpr]
      simpa using hmine

theorem Shared.kept (h : Shared history s) : Kept history s := by
  induction h with
  | start => exact ⟨fun _ => rfl, rfl, fun _ => rfl⟩
  | step shared acts ih => exact (ih.step acts).1

theorem Acts.deeds (h : Acts i s es s') : es = [] ∨ ∃ e, es = [e] := by
  cases h <;> simp

/-- All that is to be seen is as it should be. -/
theorem Shared.lawful (h : Shared history s) {past future : List Deed} {e : Deed}
    (hsplit : history = past ++ e :: future) : Lawful past e := by
  induction h generalizing future with
  | start => simp at hsplit
  | @step history es s s' i shared acts ih =>
    obtain rfl | ⟨e', rfl⟩ := acts.deeds
    · exact ih (by rwa [List.append_nil] at hsplit)
    · obtain rfl | ⟨future, last, rfl⟩ := List.eq_nil_or_concat future
      · obtain ⟨rfl, heq⟩ := List.append_inj' hsplit rfl
        obtain rfl : e' = e := by simpa using heq
        exact (shared.kept.step acts).2 _ List.mem_cons_self
      · rw [List.concat_eq_append, ← List.cons_append, ← List.append_assoc] at hsplit
        exact ih (List.append_inj' hsplit rfl).1

/-! ## Collecting with one handle -/

/-- Reports are taken with no other handle than this one, and never singly. -/
def Deed.LeftTo (i : Nat) : Deed → Prop
  | .take j _ => j = i
  | .next j _ => j ≠ i
  | _ => True

theorem since_concat (i : Nat) (history : List Deed) (e : Deed) :
    since i (history ++ [e]) =
      match e with
      | .batch j _ => if j = i then [] else since i history ++ [e]
      | _ => since i history ++ [e] := by
  simp [since]

theorem since_append (hes : ∀ e ∈ es, ∀ answer, e ≠ .batch i answer) :
    since i (history ++ es) = since i history ++ es := by
  induction es using List.reverseRecOn with
  | nil => rw [List.append_nil, List.append_nil]
  | append_singleton es e ih =>
    obtain ⟨hes, he⟩ := List.forall_mem_append.mp hes
    rw [← List.append_assoc, since_concat, ih hes, List.append_assoc]
    cases e with
    | batch j answer =>
      refine if_neg ?_
      rintro rfl
      exact he _ List.mem_cons_self answer rfl
    | _ => rfl

/-- What was accepted since the last batch is what has been taken for the next one, and what is
pending. -/
theorem Shared.accepted_since (h : Shared history s) (hleft : ∀ e ∈ history, e.LeftTo i) :
    accepted (since i history) = (s.doing i).taken ++ s.watcher.pending := by
  induction h with
  | start => rfl
  | @step history es s s' j shared acts ih =>
    obtain ⟨hleft, hes⟩ := List.forall_mem_append.mp hleft
    have ih := ih hleft
    have hsame {d : Doing} (hd : d.taken = (s.doing j).taken) :
        ((s.set j d).doing i).taken = (s.doing i).taken := by
      rw [taken_set, hd]
      split
      · next hi => rw [hi]
      · rfl
    cases acts with
    | request r idle =>
      rw [since_concat, accepted_append, ih, pending_obey]
      exact List.append_nil _
    | touch p idle =>
      rw [since_concat, accepted_append, ih, List.append_assoc, (s.watcher.touch_eq p).2]
    | start task idle =>
      rw [List.append_nil, ih, hsame (by rw [idle]; rfl)]
      rfl
    | wait busy wants next =>
      rw [List.append_nil, ih, hsame (by rw [busy]; rfl)]
      rfl
    | @take task taken waited w p busy wants next =>
      obtain rfl : j = i := hes _ List.mem_cons_self
      rw [since_concat, accepted_append, ih, taken_set, if_pos rfl, busy, (next_eq next).1]
      simp [accepted, Doing.taken, Site.set]
    | @found p waited busy =>
      have hij : i ≠ j := Ne.symm (hes _ List.mem_cons_self)
      rw [since_concat, accepted_append, ih, taken_set, if_neg hij]
      exact List.append_nil _
    | missed busy next =>
      have hij : i ≠ j := Ne.symm (hes _ List.mem_cons_self)
      rw [since_concat, accepted_append, ih, taken_set, if_neg hij]
      exact List.append_nil _
    | @closed taken busy next =>
      rw [since_concat]
      dsimp only
      split
      · next hij =>
        -- nothing is pending, and what was taken is given back
        rw [taken_set, if_pos hij.symm]
        exact (pending_of_next next).symm
      · next hij =>
        rw [accepted_append, ih, taken_set, if_neg (Ne.symm hij)]
        exact List.append_nil _

/-! ## One handle for itself -/

/-- A watcher is reached after what has happened, and nothing is being done with a handle. -/
def Reached (i : Nat) (history : List Deed) (w : Watcher) : Prop :=
  ∃ s, Shared history s ∧ s.watcher = w ∧ s.doing i = .idle

variable {w : Watcher}

theorem Reached.obey (h : Reached i history w) (r : WatchRequest) :
    Reached i (history ++ [.request r]) (w.obey r) := by
  obtain ⟨s, hs, rfl, hidle⟩ := h
  exact ⟨_, hs.step (.request r hidle), rfl, hidle⟩

theorem Reached.touch (h : Reached i history w) (p : Path) :
    Reached i (history ++ [.touch p (w.touch p).2]) (w.touch p).1 := by
  obtain ⟨s, hs, rfl, hidle⟩ := h
  exact ⟨_, hs.step (.touch p hidle), rfl, hidle⟩

/-- If nobody else does anything, then all that is pending is collected. -/
theorem Shared.collect (h : Shared history s) {taken : List Path} {waited : Bool}
    (hbusy : s.doing i = .busy .all taken waited) :
    ∃ takes, (∀ e ∈ takes, ∃ p, e = .take i p) ∧
      Reached i
        (history ++ takes ++ [.batch i (PathSet.ofList (taken ++ s.watcher.pending)).toList])
        s.watcher.collect.1 := by
  induction hpending : s.watcher.pending generalizing history s taken waited with
  | nil =>
    have hnext : s.watcher.next.2 = none := by simp [next, hpending]
    have hempty : s.watcher.collect.1 = s.watcher := by
      simp only [Watcher.collect, ← hpending]
    have hwaited : ∃ s', Shared history s' ∧ s'.watcher = s.watcher ∧
        s'.doing i = .busy .all taken true := by
      cases waited with
      | true => exact ⟨s, h, rfl, hbusy⟩
      | false =>
        have hwait := h.step (.wait hbusy (by simp) hnext)
        rw [List.append_nil] at hwait
        exact ⟨_, hwait, rfl, Function.update_self ..⟩
    obtain ⟨s', h', hsame, hbusy'⟩ := hwaited
    refine ⟨[], by simp, ?_⟩
    rw [List.append_nil, List.append_nil, hempty]
    exact ⟨_, h'.step (.closed hbusy' (hsame ▸ hnext)), hsame, Function.update_self ..⟩
  | cons p ps ih =>
    have hnext : s.watcher.next = ({ s.watcher with pending := ps }, some p) := by
      simp [next, hpending]
    have htake := h.step (.take hbusy (by simp) hnext)
    obtain ⟨takes, htakes, hreached⟩ := ih htake (Function.update_self ..) rfl
    refine ⟨.take i p :: takes, List.forall_mem_cons.mpr ⟨⟨p, rfl⟩, htakes⟩, ?_⟩
    simpa [Watcher.collect, Site.set] using hreached

theorem Reached.collect (h : Reached i history w) :
    ∃ takes, (∀ e ∈ takes, ∃ p, e = .take i p) ∧
      Reached i (history ++ takes ++ [.batch i w.collect.2]) w.collect.1 := by
  obtain ⟨s, hs, rfl, hidle⟩ := h
  have hstart := hs.step (.start .all hidle)
  rw [List.append_nil] at hstart
  exact hstart.collect (Function.update_self ..)

end Watcher
end ModuleBundler
