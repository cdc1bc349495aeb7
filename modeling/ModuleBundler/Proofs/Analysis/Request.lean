import ModuleBundler.Proofs.Analysis.Draft
import ModuleBundler.Proofs.Grammar.Agreement

/-! The requests of a module without import and export declarations: each stands for an argument
of its own, and a module with other texts in their places has the same requests for those. -/
namespace ModuleBundler

variable {a : Answers}

/-! ## The same tree with answers -/

theorem Expr.identName?_bare (a : Answers) (e : Expr) : (e.bare a).identName? = e.identName? := by
  obtain ⟨span, form⟩ := e
  cases form with
  | template texts exprs =>
    cases exprs with
    | nil =>
      rw [Expr.bare, ExprForm.bare]
      cases a span <;> rfl
    | cons e es => rfl
  | _ => rfl

theorem Expr.staticString?_bare {e : Expr} {v : String} (h : e.staticString? = some v) :
    (e.bare a).staticString? = some ((a e.span).getD v) := by
  have ht := Expr.isText_of_static (e := e) (by rw [h]; rfl)
  obtain ⟨span, form⟩ := e
  rw [Expr.bare]
  cases ha : a span with
  | some w => rw [ExprForm.bare_answered ht ha]; rfl
  | none =>
    rw [ExprForm.bare_unanswered ht ha .nowhere]
    cases form with
    | string value => exact h
    | template texts exprs =>
      cases exprs with
      | nil => exact h
      | cons e es => cases ht
    | _ => cases ht

theorem Expr.requireCall?_call (span : Span) (callee : Expr) (args : List Expr) :
    Expr.requireCall? ⟨span, .call false callee args⟩ =
      if callee.identName? = some "require" then
        match args with
        | [arg] =>
          match arg.staticString? with
          | some specifier => some (.static specifier arg.span)
          | none => some (.dynamic span)
        | _ => some (.dynamic span)
      else none := rfl

theorem Expr.requireCall?_bare_static {e : Expr} {v : String} {span : Span}
    (h : e.requireCall? = some (.static v span)) :
    (e.bare a).requireCall? = some (.static ((a span).getD v) .nowhere) := by
  obtain ⟨callee, arg, hf, hc, ht, rfl⟩ := Expr.requireCall?_static h
  obtain ⟨s, form⟩ := e
  obtain rfl : form = .call false callee [arg] := hf
  have hs := Expr.staticString?_bare (a := a) ht
  rw [Expr.bare, ExprForm.bare, bareExprs, bareExprs, requireCall?_call, identName?_bare, if_pos hc]
  simp only [hs]
  obtain ⟨argSpan, argForm⟩ := arg
  rfl

/-- What is no call of `require` does not become one. -/
theorem Expr.requireCall?_bare_none {e : Expr} (h : e.requireCall? = none) :
    (e.bare a).requireCall? = none := by
  obtain ⟨span, form⟩ := e
  cases form with
  | call optional callee args =>
    cases optional with
    | true => rfl
    | false =>
      have hc : callee.identName? ≠ some "require" := by
        intro hc
        rw [requireCall?_call, if_pos hc] at h
        split at h
        · split at h <;> cases h
        · cases h
      rw [Expr.bare, ExprForm.bare, requireCall?_call, identName?_bare, if_neg hc]
  | template texts exprs =>
    cases exprs with
    | nil =>
      rw [Expr.bare, ExprForm.bare]
      cases a span <;> rfl
    | cons e es => rfl
  | _ => rfl

theorem Expr.staticString?_bare_none {e : Expr} (h : e.staticString? = none) :
    (e.bare .none).staticString? = none := by
  obtain ⟨span, form⟩ := e
  cases form with
  | string value => cases h
  | template texts exprs =>
    cases exprs with
    | nil => exact h
    | cons e es => rfl
  | _ => rfl

theorem Expr.requireCall?_bare_dynamic {e : Expr} {span : Span}
    (h : e.requireCall? = some (.dynamic span)) :
    (e.bare .none).requireCall? = some (.dynamic .nowhere) := by
  obtain ⟨s, form⟩ := e
  cases form with
  | call optional callee args =>
    cases optional with
    | true => cases h
    | false =>
      rw [requireCall?_call] at h
      split at h
      · next hc =>
        rw [Expr.bare, ExprForm.bare, requireCall?_call, identName?_bare, if_pos hc]
        cases args with
        | nil => rfl
        | cons arg args =>
          cases args with
          | nil =>
            cases ht : arg.staticString? with
            | some v => simp only [ht] at h; cases h
            | none => simp only [bareExprs, staticString?_bare_none ht]
          | cons => rfl
      · cases h
  | _ => cases h

/-- A request as it is made by a tree without spans. -/
def Request.bare (a : Answers) (r : Request) : Request := ⟨(a r.span).getD r.specifier, .nowhere⟩

theorem Visit.request?_bare {v : Visit} (h : v.dynamic? = none) :
    (v.bare a).request? = v.request?.map (Request.bare a) ∧ (v.bare a).dynamic? = none := by
  cases v with
  | expr e =>
    rw [dynamic?, requireCall?] at h
    rw [Visit.bare, request?, request?, dynamic?, requireCall?, requireCall?]
    cases hr : e.requireCall? with
    | none =>
      rw [Expr.requireCall?_bare_none hr]
      exact ⟨rfl, rfl⟩
    | some call =>
      cases call with
      | static v span =>
        rw [Expr.requireCall?_bare_static hr]
        exact ⟨rfl, rfl⟩
      | dynamic span =>
        rw [hr] at h
        cases h
  | _ => exact ⟨rfl, rfl⟩

theorem Visit.dynamic?_bare {v : Visit} (h : (v.bare .none).dynamic? = none) :
    v.dynamic? = none := by
  cases v with
  | expr e =>
    rw [Visit.bare, dynamic?, requireCall?] at h
    rw [dynamic?, requireCall?]
    cases hr : e.requireCall? with
    | none => rfl
    | some call =>
      cases call with
      | static v span => rfl
      | dynamic span =>
        rw [Expr.requireCall?_bare_dynamic hr] at h
        cases h
  | _ => rfl

/-- A tree with answers makes the same requests, for the answers instead of the texts. -/
theorem requests_bare {vs vs' : List Visit} (h : vs'.map (Visit.bare .none) = vs.map (Visit.bare a))
    (hd : vs.findSome? Visit.dynamic? = none) :
    vs'.findSome? Visit.dynamic? = none ∧
      (vs'.filterMap Visit.request?).map Request.specifier
        = (vs.filterMap Visit.request?).map fun r => (a r.span).getD r.specifier := by
  induction vs generalizing vs' with
  | nil =>
    obtain rfl : vs' = [] := by simpa using h
    exact ⟨rfl, rfl⟩
  | cons v vs ih =>
    cases vs' with
    | nil => cases h
    | cons v' vs' =>
      obtain ⟨hv, hvs⟩ := List.cons.inj h
      rw [List.findSome?_cons] at hd
      cases hn : v.dynamic? with
      | some s => rw [hn] at hd; cases hd
      | none =>
        rw [hn] at hd
        obtain ⟨hd', hr⟩ := ih hvs hd
        obtain ⟨hq, hq'⟩ := Visit.request?_bare (a := a) hn
        rw [← hv] at hq hq'
        have hn' := Visit.dynamic?_bare hq'
        have hq₂ := (Visit.request?_bare (a := .none) hn').1
        rw [hq₂] at hq
        refine ⟨by rw [List.findSome?_cons, hn', hd'], ?_⟩
        rw [List.filterMap_cons, List.filterMap_cons]
        cases hx : v.request? with
        | none =>
          cases hx' : v'.request? with
          | none => exact hr
          | some r' => rw [hx, hx'] at hq; cases hq
        | some r =>
          cases hx' : v'.request? with
          | none => rw [hx, hx'] at hq; cases hq
          | some r' =>
            rw [hx, hx'] at hq
            have he : r'.specifier = (a r.span).getD r.specifier :=
              congrArg Request.specifier (Option.some.inj hq)
            simp only [List.map_cons, hr, he]

/-! ## Requests and arguments -/

theorem count_requests (sp : Span) (vs : List Visit) :
    ((vs.filterMap Visit.request?).map Request.span).count sp = callsAt sp vs := by
  rw [List.count, List.countP_map, List.countP_filterMap, callsAt]
  congr 1
  funext v
  cases v with
  | expr e =>
    rw [Visit.isCallAt, Visit.request?, Visit.requireCall?]
    cases e.requireCall? with
    | none => rfl
    | some call =>
      cases call with
      | static v span => rfl
      | dynamic span => rfl
  | _ => rfl

theorem argumentsAt_le (sp : Span) (previous : Token) (ts : List Token) :
    argumentsAt sp previous ts ≤ (ts.map Token.span).count sp := by
  induction ts generalizing previous with
  | nil => exact Nat.le_refl _
  | cons t ts ih =>
    have := ih t
    rw [argumentsAt, List.map_cons, List.count_cons]
    by_cases h : t.span = sp
    · rw [if_pos (beq_iff_eq.mpr h)]
      split <;> omega
    · rw [if_neg fun hs => h hs.2]
      omega

/-- A module calls `require` at most as often with a text at a span as it has arguments there. -/
theorem callsAt_le_argumentsAt {tokens : List Token} {program : Program}
    (h : Program.ofTokens tokens = .ok program) (hc : (Cursor.ofTokens tokens).Ended) (sp : Span) :
    callsAt sp program.visits ≤ argumentsAt sp (Cursor.ofTokens tokens).previous
      ((Cursor.ofTokens tokens).current :: (Cursor.ofTokens tokens).ahead) := by
  obtain ⟨c', hr, -⟩ := Program.takes_of_tokens h hc
  obtain ⟨w, hw, -, -, hcount, -⟩ := hr hc
  rw [hw.tokens, argumentsAt_append]
  exact Nat.le_trans (hcount (.calls sp)) (Nat.le_add_right _ _)

end ModuleBundler
