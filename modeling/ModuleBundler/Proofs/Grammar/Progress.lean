import ModuleBundler.Proofs.Grammar.Depth

/-! Reading ends on every list of tokens: parts are nested no deeper than there are tokens, every
round of a loop reads a token, and no end mark is passed. -/
namespace ModuleBundler
open EStateM (Result)

variable {o c c' : Cursor} {n : Nat} {α : Type} {b : Bool}

/-! ## Readers and loops that get on -/

/-- From one place another one is reached by passing some tokens, none of which is an end mark. -/
def Cursor.Passes (c c' : Cursor) : Prop := ∃ w, c.Moves w c' ∧ w ≠ [] ∧ ∀ t ∈ w, t.kind ≠ .eof

namespace Cursor

theorem Passes.reaches (h : c.Passes c') : c.Reaches c' := by
  obtain ⟨w, hw, -, hn⟩ := h
  exact ⟨w, hw, hn⟩

theorem Passes.ahead (h : c.Passes c') : c'.ahead.length < c.ahead.length := by
  obtain ⟨w, hw, hne, -⟩ := h
  have := hw.length
  have := List.length_pos_iff.mpr hne
  omega

theorem Room.passes (t : c'.Room c c.ahead.length) : c.Passes c' := by
  obtain ⟨w, hw, hn⟩ := t.reached
  refine ⟨w, hw, ?_, hn⟩
  rintro rfl
  have := hw.length
  have := t.ahead
  simp_all

theorem Passes.trans {c₁ c₂ : Cursor} (h : c.Passes c₁) (k : c₁.Reaches c₂) : c.Passes c₂ := by
  obtain ⟨u, hu, hne, hnu⟩ := h
  obtain ⟨v, hv, hnv⟩ := k
  refine ⟨u ++ v, hu.trans hv, ?_, List.forall_mem_append.mpr ⟨hnu, hnv⟩⟩
  exact List.append_ne_nil_of_left_ne_nil hne v

end Cursor

namespace Parser

/-- A reader never passes an end mark, and passes a token if it succeeds. -/
structure MovesOn (p : Parser α) : Prop where
  ok : ∀ {b c x c'}, c.Ended → p b c = .ok x c' → c.Passes c'
  error : ∀ {b c e c'}, c.Ended → p b c = .error e c' → c.Reaches c'

variable {a : Bool} {s s' : List Bracket}

/-- A reader that has room for one token passes one. -/
theorem passes_of_fresh [Likened α] {p : Parser α} {x : α} (s : List Bracket) (hc : c.Ended)
    (h : ∀ n, (Lockstep.twice c).At n false true s c c →
      (Lockstep.twice c).Ends (s = []) n true a s' (p b c) (p b c))
    (hr : p b c = .ok x c') : c.Passes c' := by
  have hs := (h _ ((Cursor.Room.start hc).fresh s)).same
  rw [hr] at hs
  exact hs.room.passes

theorem reaches_of_moved [Likened α] {p : Parser α} {e : ParseError} (s : List Bracket)
    (hc : c.Ended) (h : ∀ n, (Lockstep.twice c).At n true true s c c →
      (Lockstep.twice c).Ends (s = []) n true a s' (p b c) (p b c))
    (hr : p b c = .error e c') : c.Reaches c' := by
  have hs := (h _ ((Cursor.Room.start hc).moved s)).same
  rw [hr] at hs
  exact hs.halted.2

theorem MovesOn.of_fresh [Likened α] {p : Parser α} (s : List Bracket)
    (h : ∀ {o n m b c}, (Lockstep.twice o).At n m true s c c →
      (Lockstep.twice o).Ends (s = []) n true a s' (p b c) (p b c)) : p.MovesOn where
  ok hc := passes_of_fresh s hc fun _ t => h t
  error hc := reaches_of_moved s hc fun _ t => h t

/-- What a reader takes tells that it passes a token. -/
theorem MovesOn.of_takes [Likened α] {p : Parser α}
    (takes : ∀ {b c x c'}, p b c = .ok x c' → ∃ vs os, Takes true c vs os c')
    (h : ∀ {o n b c}, (Lockstep.twice o).At n true true s c c →
      (Lockstep.twice o).Ends (s = []) n true a s' (p b c) (p b c)) : p.MovesOn where
  ok hc hr := by
    obtain ⟨_, _, h⟩ := takes hr
    exact (h.room hc).passes
  error hc := reaches_of_moved s hc fun _ t => h t

/-- The rounds of a loop without a guard, up to its end or an error in one of them. -/
inductive Rounds (continues : Cursor → Bool) (step : α → Parser α) (b : Bool) :
    α → Cursor → Result ParseError Cursor α → Prop where
  | stop {x : α} {c : Cursor} (h : continues c = false) : Rounds continues step b x c (.ok x c)
  | fail {x : α} {c c' : Cursor} {e : ParseError} (h : continues c = true)
      (round : step x b c = .error e c') : Rounds continues step b x c (.error e c')
  | round {x y : α} {c c' : Cursor} {r : Result ParseError Cursor α} (h : continues c = true)
      (round : step x b c = .ok y c') (rest : Rounds continues step b y c' r) :
      Rounds continues step b x c r

/-- Every round of a loop passes a token, so that from every place there are only finitely many
rounds, and a guard against more of them changes nothing. -/
structure LoopEnds (b : Bool) (continues : Cursor → Bool) (step : α → Parser α) : Prop where
  round : ∀ {x c y c'}, c.Ended → continues c = true → step x b c = .ok y c' → c.Passes c'
  rounds : ∀ {x c}, c.Ended → Rounds continues step b x c (iterate continues step x b c)

/-- A loop that collects items ends. -/
def ItemsEnd (b : Bool) (continues : Cursor → Bool) (item : Parser α) : Prop :=
  LoopEnds b continues fun items : List α => return (← item) :: items

/-- A loop that collects items up to a closing mark ends. -/
def ItemsEndUntil (b : Bool) (close : Punctuator) (item : Parser α) : Prop :=
  ItemsEnd b (fun c => !c.seesMark close && !c.atEnd) item

/-- A loop that collects items with commas between them ends. -/
def CommasEnd (b : Bool) (close : Punctuator) (item : Parser α) : Prop :=
  ItemsEndUntil b close do
    let a ← item
    separator close
    return a

variable {continues : Cursor → Bool} {step : α → Parser α} {item : Parser α} {close : Punctuator}

/-- It is enough that every round passes a token. -/
theorem LoopEnds.of_round
    (h : ∀ {x c y c'}, c.Ended → continues c = true → step x b c = .ok y c' → c.Passes c') :
    LoopEnds b continues step where
  round := h
  rounds {x c} hc := by
    fun_induction Parser.iterate continues step x b c with
    | case1 x c hgo e c₁ hs => exact .fail hgo hs
    | case2 x c hgo y c₁ hs hl ih => exact .round hgo hs (ih ((h hc hgo hs).reaches.ended hc))
    | case3 x c hgo y c₁ hs hl => exact absurd (h hc hgo hs).ahead hl
    | case4 x c hgo => exact .stop (Bool.not_eq_true _ ▸ hgo)

theorem ItemsEnd.of_passes
    (h : ∀ {c x c'}, c.Ended → continues c = true → item b c = .ok x c' → c.Passes c') :
    ItemsEnd b continues item := by
  refine .of_round fun hc hgo hr => ?_
  simp only [bind_ok, pure_ok] at hr
  obtain ⟨_, _, hx, -, rfl⟩ := hr
  exact h hc hgo hx

theorem MovesOn.itemsEnd (h : item.MovesOn) : ItemsEnd b continues item :=
  .of_passes fun hc _ => h.ok hc

theorem separator_reaches {x : Unit} (hc : c.Ended) (h : separator close b c = .ok x c') :
    c.Reaches c' := by
  obtain ⟨w, hw, hr, -⟩ := separator_takes h hc
  exact ⟨w, hw, Bracket.not_eof_of_run hr⟩

theorem MovesOn.commasEnd (h : item.MovesOn) : CommasEnd b close item := by
  refine ItemsEnd.of_passes fun hc _ hr => ?_
  simp only [bind_ok, pure_ok] at hr
  obtain ⟨_, _, hx, _, _, hs, -, rfl⟩ := hr
  have hpass := h.ok hc hx
  exact hpass.trans (separator_reaches (hpass.reaches.ended hc) hs)

/-- Items of which one may be left out before its comma. -/
theorem MovesOn.holesEnd (h : item.MovesOn) : ItemsEnd b continues (do
    if ← eatMark .comma then return none
    let x ← item
    separator close
    return some x) := by
  refine .of_passes fun hc _ hr => ?_
  simp only [bind_ok, if_apply] at hr
  obtain ⟨r, c₁, he, hr⟩ := hr
  rcases eat_ok he with ⟨rfl, hs, rfl⟩ | ⟨rfl, -, rfl⟩
  · obtain ⟨-, rfl⟩ := pure_ok.mp hr
    exact (Cursor.room_next hc (Cursor.atEnd_of_sees hs)).passes
  · simp only [Bool.false_eq_true, if_false, bind_ok, pure_ok] at hr
    obtain ⟨_, _, hx, _, _, hs, -, rfl⟩ := hr
    have hpass := h.ok hc hx
    exact hpass.trans (separator_reaches (hpass.reaches.ended hc) hs)

end Parser

namespace Grammar
open ModuleBundler.Parser

/-! ## The readers of all that is built, and the loops in them -/

/-- All readers of items, declarations, statements, expressions and patterns pass a token, and no
end mark. -/
structure MovesOn (g : Grammar) : Prop where
  item : g.item.MovesOn
  importDecl : Grammar.importDecl.MovesOn
  exportDecl : g.exportDecl.MovesOn
  declaration : ∀ nameOptional, (g.declaration nameOptional).MovesOn
  function : ∀ nameOptional, (g.function nameOptional).MovesOn
  classDef : ∀ nameOptional, (g.classDef nameOptional).MovesOn
  classMember : g.classMember?.MovesOn
  bindings : g.bindings.MovesOn
  binding : g.binding.MovesOn
  readStatement : g.readStatement.MovesOn
  simpleStatement : g.simpleStatement.MovesOn
  block : g.block.MovesOn
  ifStatement : g.ifStatement.MovesOn
  forStatement : g.forStatement.MovesOn
  whileStatement : g.whileStatement.MovesOn
  doWhileStatement : g.doWhileStatement.MovesOn
  switchStatement : g.switchStatement.MovesOn
  switchCase : g.switchCase.MovesOn
  returnStatement : g.returnStatement.MovesOn
  throwStatement : g.throwStatement.MovesOn
  tryStatement : g.tryStatement.MovesOn
  labeledStatement : g.labeledStatement.MovesOn
  expressionStatement : g.expressionStatement.MovesOn
  condition : g.condition.MovesOn
  readExpression : ∀ precedence, (g.readExpression precedence).MovesOn
  fullExpression : g.fullExpression.MovesOn
  assignment : g.assignment.MovesOn
  enclosed : g.enclosed.MovesOn
  spreadOrAssignment : g.spreadOrAssignment.MovesOn
  operand : g.operand.MovesOn
  primaryExpression : g.primaryExpression.MovesOn
  identifierExpression : g.identifierExpression.MovesOn
  parenExpression : g.parenExpression.MovesOn
  arrowTail : ∀ start params isAsync, (g.arrowTail start params isAsync).MovesOn
  newExpression : g.newExpression.MovesOn
  newCallee : g.newCallee.MovesOn
  objectMember : g.objectMember.MovesOn
  arrayLiteral : g.arrayLiteral.MovesOn
  objectLiteral : g.objectLiteral.MovesOn
  importExpression : Grammar.importExpression.MovesOn
  yieldExpression : g.yieldExpression.MovesOn
  compound : g.compound.MovesOn
  readPattern : g.readPattern.MovesOn
  patternWithDefault : g.patternWithDefault.MovesOn
  arrayPattern : g.arrayPattern.MovesOn
  objectPattern : g.objectPattern.MovesOn
  patternProperty : g.patternProperty.MovesOn
  params : g.params.MovesOn

/-- All loops over tokens end. -/
structure LoopsEnd (g : Grammar) (b : Bool) : Prop where
  operators : ∀ precedence, LoopEnds b (goesOn b precedence) g.extend
  callee : ∀ start, LoopEnds b calleeGoesOn (g.extendCallee start)
  sequence : ItemsEnd b (·.seesMark .comma) (do consumeMark .comma; g.assignment)
  fullSequence : ItemsEnd b (·.seesMark .comma) (do consumeMark .comma; g.readExpression 1)
  arguments : CommasEnd b .rParen g.spreadOrAssignment
  templateParts : ItemsEnd b (·.sees .templateMiddle) g.templatePart
  elements : ItemsEndUntil b .rBracket (do
    if ← eatMark .comma then return none
    let element ← g.spreadOrAssignment
    separator .rBracket
    return some element)
  objectMembers : CommasEnd b .rBrace g.objectMember
  params : CommasEnd b .rParen g.param
  positions : ItemsEnd b (partsGoOn .rBracket) g.arrayPosition
  properties : ItemsEnd b (partsGoOn .rBrace) g.patternProperty
  statements : ItemsEndUntil b .rBrace g.statement
  classMembers : ItemsEndUntil b .rBrace g.classMember?
  bindings : ItemsEnd b (·.seesMark .comma) (do consumeMark .comma; g.binding)
  cases : ItemsEndUntil b .rBrace g.switchCase
  caseBody : ItemsEnd b (fun c => !c.seesKeyword .caseKw && !c.seesKeyword .defaultKw
    && !c.seesMark .rBrace && !c.atEnd) g.statement
  imports : CommasEnd b .rBrace namedImport
  exports : CommasEnd b .rBrace namedExport

theorem movesOn_nested (k : Nat) : (nested k).MovesOn := by
  have hg {o n} : (Lockstep.twice o).Parts n (nested k) (nested k) := same_self n k o
  have hc := accounts_nested k
  have goes {o : Cursor} {s : List Bracket} {c d : Cursor} :
      ¬ c.Stopped (Lockstep.twice o).loses s d := fun h => h.loses
  exact {
    item := .of_fresh [] fun t => hg.item t goes
    importDecl := .of_fresh [] fun t => Lockstep.Parts.importDecl t
    exportDecl := .of_fresh [] fun t => hg.exportDecl t
    declaration := fun _ => .of_fresh [] fun t => hg.declaration _ t
    function := fun _ => .of_fresh [] fun t => hg.function _ t
    classDef := fun _ => .of_fresh [] fun t => hg.classDef _ t
    classMember := .of_fresh [.curly] fun t => hg.classMember? t
    bindings := .of_fresh [] fun t => hg.bindings t goes
    binding := .of_takes (s := []) (fun h => ⟨_, _, hc.binding h⟩) fun t => hg.binding t
    readStatement := .of_fresh [] fun t => hg.readStatement t
    simpleStatement := .of_fresh [] fun t => hg.simpleStatement t goes
    block := .of_fresh [] fun t => hg.block t
    ifStatement := .of_fresh [] fun t => hg.ifStatement t
    forStatement := .of_fresh [] fun t => hg.forStatement t
    whileStatement := .of_fresh [] fun t => hg.whileStatement t
    doWhileStatement := .of_fresh [] fun t => hg.doWhileStatement t
    switchStatement := .of_fresh [] fun t => hg.switchStatement t
    switchCase := .of_fresh [.curly] fun t => hg.switchCase t
    returnStatement := .of_fresh [] fun t => hg.returnStatement t (t.same goes)
    throwStatement := .of_fresh [] fun t => hg.throwStatement t
    tryStatement := .of_fresh [] fun t => hg.tryStatement t
    labeledStatement := .of_fresh [] fun t => hg.labeledStatement t
    expressionStatement := .of_fresh [] fun t => hg.expressionStatement t
    condition := .of_fresh [] fun t => hg.condition t
    readExpression := fun _ => .of_fresh [] fun t => hg.readExpression t
    fullExpression := .of_fresh [] fun t => hg.fullExpression t
    assignment := .of_takes (s := []) (fun h => ⟨_, _, (hc.assignment h).takes⟩)
      fun t => hg.assignment t
    enclosed := .of_takes (s := []) (fun h => ⟨_, _, (hc.enclosed h).takes⟩) fun t => hg.enclosed t
    spreadOrAssignment := .of_takes (s := []) (fun h => ⟨_, _, (hc.spreadOrAssignment h).takes⟩)
      fun t => hg.spreadOrAssignment t
    operand := .of_fresh [] fun t => hg.operand t
    primaryExpression := .of_fresh [] fun t => hg.primaryExpression t
    identifierExpression := .of_fresh [] fun t => hg.identifierExpression t
    parenExpression := .of_fresh [] fun t => hg.parenExpression t goes
    arrowTail := fun _ _ _ => .of_fresh [] fun t => hg.arrowTail rfl rfl _ t
    newExpression := .of_fresh [] fun t => hg.newExpression t goes
    newCallee := .of_takes (s := []) (fun h => ⟨_, _, (hc.newCallee h).takes⟩)
      fun t => hg.newCallee t
    objectMember := .of_fresh [.curly] fun t => hg.objectMember t
    arrayLiteral := .of_fresh [] fun t => hg.arrayLiteral t
    objectLiteral := .of_fresh [] fun t => hg.objectLiteral t
    importExpression := .of_fresh [] fun t => Lockstep.Parts.importExpression t goes
    yieldExpression := .of_fresh [] fun t => hg.yieldExpression t
    compound := .of_fresh [] fun t => hg.compound t (t.same goes) (fun _ => rfl) goes
    readPattern := .of_fresh [] fun t => hg.readPattern t
    patternWithDefault := .of_takes (s := []) (fun h => ⟨_, _, (hc.patternWithDefault h).takes⟩)
      fun t => hg.patternWithDefault t
    arrayPattern := .of_fresh [] fun t => hg.arrayPattern t
    objectPattern := .of_fresh [] fun t => hg.objectPattern t
    patternProperty := .of_fresh [.curly] fun t => hg.patternProperty t
    params := .of_fresh [] fun t => hg.params t }

theorem loopsEnd_nested (k : Nat) (b : Bool) : (nested k).LoopsEnd b := by
  have hg {o n} : (Lockstep.twice o).Parts n (nested k) (nested k) := same_self n k o
  have hc := accounts_nested k
  have hm := movesOn_nested k
  have hstatement : (nested k).statement.MovesOn :=
    .of_takes (s := []) (fun h => ⟨_, _, (hc.statement h).takes⟩) fun t => hg.statement t
  have hparam : (nested k).param.MovesOn :=
    .of_takes (s := []) (fun h => ⟨_, _, hc.param h⟩) fun t => hg.param t
  exact {
    operators := fun _ => .of_round fun hend hgo hr => by
      obtain ⟨_, hk⟩ := ofToken?_of_goesOn hgo
      obtain ⟨_, _, hn⟩ := hc.extend_takes hk hr
      exact (hn.room hend).passes
    callee := fun _ => .of_round fun hend hgo hr => by
      simp only [extendCallee, bind_ok, spanFrom_ok, pure_ok] at hr
      obtain ⟨_, _, hf, _, _, ⟨-, rfl⟩, -, rfl⟩ := hr
      obtain ⟨_, _, hn, -⟩ := (hc.calleeForm hgo hf).takes .nowhere
      exact (hn.room hend).passes
    sequence := MovesOn.itemsEnd <| .of_fresh [] fun t =>
      (t.consumeMark rfl rfl).bind fun _ _ t => hg.assignment t
    fullSequence := MovesOn.itemsEnd <| .of_fresh [] fun t =>
      (t.consumeMark rfl rfl).bind fun _ _ t => hg.readExpression t
    arguments := hm.spreadOrAssignment.commasEnd
    templateParts := .of_passes fun hend hgo => passes_of_fresh [.template] hend fun _ t =>
      hg.templatePart t (Cursor.atEnd_of_sees hgo)
        (by rw [Cursor.kind_of_sees hgo]; rfl) (by rw [Cursor.kind_of_sees hgo]; rfl)
    elements := hm.spreadOrAssignment.holesEnd
    objectMembers := hm.objectMember.commasEnd
    params := hparam.commasEnd
    positions := hm.patternWithDefault.holesEnd
    properties := hm.patternProperty.itemsEnd
    statements := hstatement.itemsEnd
    classMembers := hm.classMember.itemsEnd
    bindings := MovesOn.itemsEnd <| .of_fresh [] fun t =>
      (t.consumeMark rfl rfl).bind fun _ _ t => hg.binding t
    cases := hm.switchCase.itemsEnd
    caseBody := hstatement.itemsEnd
    imports := MovesOn.commasEnd <| .of_fresh [] fun t => Lockstep.Parts.namedImport t
    exports := MovesOn.commasEnd <| .of_fresh [] fun t => Lockstep.Parts.namedExport t }

end Grammar

/-! ## Whole modules -/

namespace Cursor

theorem reaches_skip {previous current : Token} {ts : List Token}
    (h : (⟨previous, current, ts⟩ : Cursor).Ended) :
    (⟨previous, current, ts⟩ : Cursor).Reaches (skip previous current ts) := by
  fun_induction skip previous current ts with
  | case1 | case2 => exact .refl _
  | case3 previous current t ts d hd ih =>
    have hend : d.atEnd = false := by
      rw [Bool.or_eq_true, not_or, Bool.not_eq_true] at hd
      exact hd.1
    have hnext : d.next = ⟨current, t, ts⟩ := by
      change (if d.atEnd = true then d else _) = _
      rw [hend]
      rfl
    have hstep := Reaches.next h hend
    rw [hnext] at hstep
    exact hstep.trans (ih (hstep.ended h))

/-- After an error reading goes on at a later place, unless it is at the end. -/
theorem passes_afterError (hc : c.Ended) :
    c.Passes c.afterError ∨ c.atEnd = true ∧ c.afterError = c := by
  cases hend : c.atEnd with
  | false =>
    have hnext := (room_next hc hend).passes
    exact .inl (hnext.trans (reaches_skip (hnext.reaches.ended hc)))
  | true =>
    refine .inr ⟨rfl, ?_⟩
    rw [afterError, next_of_atEnd hend]
    cases ha : c.ahead with
    | nil => rw [skip, ← ha]
    | cons t ts =>
      have hstop : (⟨c.previous, c.current, t :: ts⟩ : Cursor).atEnd = true := hend
      rw [skip, hstop, Bool.true_or, if_pos rfl, ← ha]

end Cursor

namespace Grammar

/-- Items are read up to the end, with no guard on the loop; after an error reading goes on where it
may. -/
inductive ReadsItems (g : Grammar) : Cursor → Parsed → Prop where
  | stop {c : Cursor} (h : c.atEnd = true) : ReadsItems g c ⟨[], [], c.current.span.stop⟩
  | item {c c' : Cursor} {i : Item} {rest : Parsed} (h : c.atEnd = false)
      (round : g.item true c = .ok i c') (more : ReadsItems g c' rest) :
      ReadsItems g c { rest with items := i :: rest.items }
  | error {c c' : Cursor} {e : ParseError} {rest : Parsed} (h : c.atEnd = false)
      (round : g.item true c = .error e c') (more : ReadsItems g c'.afterError rest) :
      ReadsItems g c { rest with errors := e :: rest.errors }

theorem MovesOn.readsItems {g : Grammar} (hg : g.MovesOn) (hc : c.Ended) :
    g.ReadsItems c (g.items c) := by
  have hitem := hg.item
  fun_induction Grammar.items g c with
  | case1 c hend => exact .stop hend
  | case2 c hend i c₁ hi hl rest ih =>
    exact .item (Bool.not_eq_true _ ▸ hend) hi (ih ((hitem.ok hc hi).reaches.ended hc))
  | case3 c hend i c₁ hi hl => exact absurd (hitem.ok hc hi).ahead hl
  | case4 c hend e c₁ hi hl rest ih =>
    have hc₁ := (hitem.error hc hi).ended hc
    exact .error (Bool.not_eq_true _ ▸ hend) hi (ih (Cursor.ended_afterError hc₁))
  | case5 c hend e c₁ hi hl =>
    have hreach := hitem.error hc hi
    rcases Cursor.passes_afterError (hreach.ended hc) with hpass | ⟨hstop, hafter⟩
    · exact absurd (Nat.lt_of_lt_of_le hpass.ahead hreach.ahead) hl
    · have hrest : g.ReadsItems c₁.afterError ⟨[], [], c₁.current.span.stop⟩ := by
        rw [hafter]
        exact .stop hstop
      exact .error (Bool.not_eq_true _ ▸ hend) hi hrest

end Grammar

/-- Reading tokens as a module ends: the calls of the readers are nested no deeper than there are
tokens, whatever would be read below that; the loops end; and all readers move on towards the end
mark, which none of them passes. -/
structure ReadingEnds (tokens : List Token) : Prop where
  ended : (Cursor.ofTokens tokens).Ended
  depth : ∀ g k, (Cursor.ofTokens tokens).ahead.length ≤ k →
    (Grammar.step^[k] g).items (Cursor.ofTokens tokens)
      = (Grammar.nested ((Cursor.ofTokens tokens).ahead.length + 1)).items (Cursor.ofTokens tokens)
  items : ∀ k, (Grammar.nested k).ReadsItems (Cursor.ofTokens tokens)
    ((Grammar.nested k).items (Cursor.ofTokens tokens))
  afterError : ∀ c : Cursor, c.Ended → c.Passes c.afterError ∨ c.atEnd = true ∧ c.afterError = c
  movesOn : ∀ k, (Grammar.nested k).MovesOn
  loopsEnd : ∀ k b, (Grammar.nested k).LoopsEnd b

/-- Reading ends on every list of tokens, whether they are a whole script, a part of one or none. -/
theorem Program.reading_ends (tokens : List Token) : ReadingEnds tokens where
  ended := .ofTokens tokens
  depth g k hk := Grammar.items_congr (.ofTokens tokens) fun n hn => by
    rw [Lockstep.nested_eq_iterate]
    exact Grammar.same_iterate _ _ (Nat.le_trans hn hk) (Nat.le_succ_of_le hn)
  items k := (Grammar.movesOn_nested k).readsItems (.ofTokens tokens)
  afterError _ := Cursor.passes_afterError
  movesOn k := Grammar.movesOn_nested k
  loopsEnd k := Grammar.loopsEnd_nested k

end ModuleBundler
