import Mathlib.Logic.Relation
import ModuleBundler.Proofs.Graph.Log
import ModuleBundler.Proofs.Graph.Recursion

/-! The loop of a walk round by round, with no limit to what it loads. It comes to an end, and to
the same one as the walk with a budget. -/
namespace ModuleBundler
open ModuleBundler.Graph

namespace Walk

/-- A round of the loop, and the file that is loaded in it, if there is one. -/
inductive Round (p : Project) (name : String) : Walk → Option Path → Walk → Prop
  | built {g : Graph} {m : Module} {stack : List Frame} {inProgress : List String} :
      Round p name ⟨g, ⟨m, []⟩ :: stack, inProgress⟩ none (.pop g m stack inProgress)
  | known {g : Graph} {m : Module} {d : Dependency} {ahead : List Dependency}
      {stack : List Frame} {inProgress : List String} (known : g.has d.id = true) :
      Round p name ⟨g, ⟨m, d :: ahead⟩ :: stack, inProgress⟩ none
        ⟨g.spreadName d.id name, ⟨m, ahead⟩ :: stack, inProgress⟩
  | waits {g : Graph} {m : Module} {d : Dependency} {ahead : List Dependency}
      {stack : List Frame} {inProgress : List String} (unknown : g.has d.id = false)
      (waits : d.id ∈ inProgress) :
      Round p name ⟨g, ⟨m, d :: ahead⟩ :: stack, inProgress⟩ none
        ⟨g, ⟨m, ahead⟩ :: stack, inProgress⟩
  | loaded {g : Graph} {m loaded : Module} {d : Dependency} {ahead : List Dependency}
      {stack : List Frame} {inProgress : List String} {touched : PathSet}
      (unknown : g.has d.id = false) (new : d.id ∉ inProgress)
      (load : p.load name d.path g.touched = (touched, .ok loaded)) :
      Round p name ⟨g, ⟨m, d :: ahead⟩ :: stack, inProgress⟩ (some d.path)
        (.push ⟨g, ⟨m, ahead⟩ :: stack, inProgress⟩ loaded touched)

/-- All rounds of the loop, up to the end of the walk or the first file that cannot be loaded, and
the files that are loaded in them. -/
inductive Rounds (p : Project) (name : String) :
    Walk → List Path → Graph × Option BundleError → Prop
  | finished {g : Graph} {inProgress : List String} : Rounds p name ⟨g, [], inProgress⟩ [] (g, none)
  | failed {g : Graph} {m : Module} {d : Dependency} {ahead : List Dependency}
      {stack : List Frame} {inProgress : List String} {touched : PathSet} {e : BundleError}
      (unknown : g.has d.id = false) (new : d.id ∉ inProgress)
      (load : p.load name d.path g.touched = (touched, .error e)) :
      Rounds p name ⟨g, ⟨m, d :: ahead⟩ :: stack, inProgress⟩ [d.path]
        ({ g with touched }, some e)
  | next {w w' : Walk} {path : Option Path} {loads : List Path}
      {outcome : Graph × Option BundleError} (first : Round p name w path w')
      (rest : Rounds p name w' loads outcome) :
      Rounds p name w (path.toList ++ loads) outcome

variable {p : Project} {name : String} {w w' w'' : Walk} {path path' : Option Path}
  {loads loads' : List Path} {outcome outcome' : Graph × Option BundleError}

theorem Round.deterministic (h : Round p name w path w') (h' : Round p name w path' w'') :
    path = path' ∧ w' = w'' := by
  cases h with
  | built =>
    cases h'
    exact ⟨rfl, rfl⟩
  | known known =>
    cases h' with
    | known => exact ⟨rfl, rfl⟩
    | _ => simp_all
  | waits unknown waits =>
    cases h' with
    | known known => simp_all
    | waits => exact ⟨rfl, rfl⟩
    | loaded _ new => exact absurd waits new
  | loaded unknown new load =>
    cases h' with
    | known known => simp_all
    | waits _ waits => exact absurd waits new
    | loaded _ _ load' =>
      rw [load] at load'
      cases load'
      exact ⟨rfl, rfl⟩

/-- There is no round after the end of a walk. -/
theorem Rounds.deterministic (h : Rounds p name w loads outcome)
    (h' : Rounds p name w loads' outcome') : loads = loads' ∧ outcome = outcome' := by
  induction h generalizing loads' outcome' with
  | finished =>
    cases h' with
    | finished => exact ⟨rfl, rfl⟩
    | next first => cases first
  | failed unknown new load =>
    cases h' with
    | failed _ _ load' =>
      rw [load] at load'
      cases load'
      exact ⟨rfl, rfl⟩
    | next first =>
      cases first with
      | known known => simp_all
      | waits _ waits => exact absurd waits new
      | loaded _ _ load' =>
        rw [load] at load'
        cases load'
  | next first rest ih =>
    cases h' with
    | finished => cases first
    | failed unknown new load =>
      cases first with
      | known known => simp_all
      | waits _ waits => exact absurd waits new
      | loaded _ _ load' =>
        rw [load] at load'
        cases load'
    | next first' rest' =>
      obtain ⟨rfl, rfl⟩ := first.deterministic first'
      obtain ⟨rfl, rfl⟩ := ih rest'
      exact ⟨rfl, rfl⟩

/-- A round in which nothing is loaded. -/
def Quiet (p : Project) (name : String) (w w' : Walk) : Prop := Round p name w none w'

theorem Rounds.of_quiet (hq : Relation.ReflTransGen (Quiet p name) w w')
    (h : Rounds p name w' loads outcome) : Rounds p name w loads outcome := by
  induction hq using Relation.ReflTransGen.head_induction_on with
  | refl => exact h
  | head first _ ih => exact .next first ih

/-- What is afforded still is after rounds in which nothing is loaded. -/
theorem affords_of_quiet {budget : Nat} (hq : Relation.ReflTransGen (Quiet p name) w w')
    (h : Affords p budget w) : Affords p budget w' := by
  induction hq with
  | refl => exact h
  | tail _ last ih =>
    cases last with
    | built => exact ih.pop
    | known => exact ih.skip.spread
    | waits => exact ih.skip

/-- A walk goes on without loading anything until it ends or comes to a module that is new. -/
theorem settle_quiet (p : Project) (name : String) (w : Walk) :
    ∃ w', Relation.ReflTransGen (Quiet p name) w w' ∧
      match settle name w with
      | (settled, none) => w' = ⟨settled.graph, [], settled.inProgress⟩
      | (settled, some d) => ∃ m ahead rest,
          w' = ⟨settled.graph, ⟨m, d :: ahead⟩ :: rest, settled.inProgress⟩ ∧
          settled.stack = ⟨m, ahead⟩ :: rest ∧ settled.graph.has d.id = false ∧
          d.id ∉ settled.inProgress := by
  fun_induction settle name w with
  | case1 g inProgress => exact ⟨_, .refl, rfl⟩
  | case2 g m stack inProgress ih =>
    obtain ⟨w, hw, hs⟩ := ih
    exact ⟨w, hw.head .built, hs⟩
  | case3 g m d ahead stack inProgress hd ih =>
    obtain ⟨w, hw, hs⟩ := ih
    exact ⟨w, hw.head (.known hd), hs⟩
  | case4 g m d ahead stack inProgress hd hw ih =>
    have hround : Quiet p name ⟨g, ⟨m, d :: ahead⟩ :: stack, inProgress⟩
        ⟨g, ⟨m, ahead⟩ :: stack, inProgress⟩ :=
      .waits (Bool.eq_false_iff.mpr hd) (List.contains_iff_mem.mp hw)
    obtain ⟨w, hw, hs⟩ := ih
    exact ⟨w, hw.head hround, hs⟩
  | case5 g m d ahead stack inProgress hd hw =>
    exact ⟨_, .refl, m, ahead, stack, rfl, rfl, Bool.eq_false_iff.mpr hd,
      List.contains_iff_mem.not.mp hw⟩

/-- The loop ends, and the walk with a budget ends with the same, where there is budget for all
files. -/
theorem rounds_finishLogged (name : String) {budget : Nat} (h : Affords p budget w) :
    Rounds p name w (finishLogged p name budget w).1 (finishLogged p name budget w).2 := by
  obtain ⟨w', hquiet, hs⟩ := settle_quiet p name w
  have hw := affords_of_quiet hquiet h
  refine .of_quiet hquiet ?_
  induction budget generalizing w w' with
  | zero =>
    unfold finishLogged
    rcases hsettle : settle name w with ⟨settled, _ | d⟩ <;> rw [hsettle] at hs
    · rw [hs]
      exact .finished
    · obtain ⟨m, ahead, rest, rfl, -, unknown, new⟩ := hs
      exact absurd (hw.budget_pos unknown new) (Nat.lt_irrefl 0)
  | succ budget ih =>
    unfold finishLogged
    rcases hsettle : settle name w with ⟨settled, _ | d⟩ <;> rw [hsettle] at hs
    · rw [hs]
      exact .finished
    obtain ⟨g, stack, inProgress⟩ := settled
    obtain ⟨m, ahead, rest, rfl, rfl, unknown, new⟩ := hs
    dsimp only
    rcases hload : p.load name d.path g.touched with ⟨touched, e | loaded⟩
    · exact .failed unknown new hload
    · have ha := hw.push unknown new hload
      obtain ⟨w, hquiet, hs⟩ := settle_quiet p name
        (push ⟨g, ⟨m, ahead⟩ :: rest, inProgress⟩ loaded touched)
      exact .next (.loaded unknown new hload)
        (.of_quiet hquiet (ih ha w hquiet hs (affords_of_quiet hquiet ha)))

end Walk

namespace Graph

/-- A call that adds an entry point, with all files that are loaded in it. -/
inductive Call (p : Project) (g : Graph) (name : String) (path : Path) :
    List Path → Graph × Except BundleError String → Prop
  | known (known : (g.touch path).has (p.idOf path) = true) :
      Call p g name path [] ((g.touch path).spreadName (p.idOf path) name, .ok (p.idOf path))
  | unloaded {touched : PathSet} {e : BundleError}
      (unknown : (g.touch path).has (p.idOf path) = false)
      (load : p.load name path (g.touch path).touched = (touched, .error e)) :
      Call p g name path [path] ({ g.touch path with touched }, .error e)
  | failed {touched : PathSet} {m : Module} {loads : List Path} {after : Graph} {e : BundleError}
      (unknown : (g.touch path).has (p.idOf path) = false)
      (load : p.load name path (g.touch path).touched = (touched, .ok m))
      (rounds : Walk.Rounds p name (.start { g.touch path with touched } m) loads
        (after, some e)) : Call p g name path (path :: loads) (after, .error e)
  | finished {touched : PathSet} {m : Module} {loads : List Path} {after : Graph}
      (unknown : (g.touch path).has (p.idOf path) = false)
      (load : p.load name path (g.touch path).touched = (touched, .ok m))
      (rounds : Walk.Rounds p name (.start { g.touch path with touched } m) loads
        (after, none)) : Call p g name path (path :: loads) (after, .ok (p.idOf path))

variable {p : Project} {g : Graph} {name : String} {path : Path} {loads loads' : List Path}
  {outcome outcome' : Graph × Except BundleError String}

theorem Call.deterministic (h : Call p g name path loads outcome)
    (h' : Call p g name path loads' outcome') : loads = loads' ∧ outcome = outcome' := by
  cases h with
  | known known =>
    cases h' with
    | known => exact ⟨rfl, rfl⟩
    | _ => simp_all
  | unloaded unknown load =>
    cases h' with
    | known known => simp_all
    | unloaded _ load' =>
      rw [load] at load'
      cases load'
      exact ⟨rfl, rfl⟩
    | failed _ load' => rw [load] at load'; cases load'
    | finished _ load' => rw [load] at load'; cases load'
  | failed unknown load rounds =>
    cases h' with
    | known known => simp_all
    | unloaded _ load' => rw [load] at load'; cases load'
    | failed _ load' rounds' =>
      rw [load] at load'
      cases load'
      obtain ⟨rfl, h⟩ := rounds.deterministic rounds'
      cases h
      exact ⟨rfl, rfl⟩
    | finished _ load' rounds' =>
      rw [load] at load'
      cases load'
      cases (rounds.deterministic rounds').2
  | finished unknown load rounds =>
    cases h' with
    | known known => simp_all
    | unloaded _ load' => rw [load] at load'; cases load'
    | failed _ load' rounds' =>
      rw [load] at load'
      cases load'
      cases (rounds.deterministic rounds').2
    | finished _ load' rounds' =>
      rw [load] at load'
      cases load'
      obtain ⟨rfl, h⟩ := rounds.deterministic rounds'
      cases h
      exact ⟨rfl, rfl⟩

/-- A call comes to an end, the one that the walk with a budget comes to. -/
theorem call_addEntryLogged (p : Project) (g : Graph) (name : String) (path : Path) :
    Call p g name path (g.addEntryLogged p name path).1 (g.addEntryLogged p name path).2 := by
  unfold addEntryLogged
  dsimp only
  split
  · next hhas => exact .known hhas
  next hhas =>
  have unknown : (g.touch path).has (p.idOf path) = false := by simpa using hhas
  rcases hload : p.load name path (g.touch path).touched with ⟨touched, e | m⟩
  · exact .unloaded unknown hload
  have hrounds := Walk.rounds_finishLogged name
    (Walk.affords_start (g := { g.touch path with touched }) hload)
  dsimp only
  rcases hrun : Walk.finishLogged p name p.resolver.tree.nodes.length
    (.start { g.touch path with touched } m) with ⟨loads, after, _ | e⟩
  · rw [hrun] at hrounds
    exact .finished unknown hload hrounds
  · rw [hrun] at hrounds
    exact .failed unknown hload hrounds

/-- Every call has one outcome. -/
theorem call_iff : Call p g name path loads outcome
    ↔ loads = (g.addEntryLogged p name path).1 ∧ outcome = g.addEntry p name path := by
  rw [← addEntryLogged_eq]
  constructor
  · intro h
    exact h.deterministic (call_addEntryLogged p g name path)
  · rintro ⟨rfl, rfl⟩
    exact call_addEntryLogged p g name path

end Graph
end ModuleBundler
