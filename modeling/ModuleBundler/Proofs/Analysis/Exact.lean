import Mathlib.Data.List.Forall2
import ModuleBundler.Proofs.Analysis.Sequence
import ModuleBundler.Proofs.Grammar.Balance
import ModuleBundler.Proofs.Grammar.Formed

/-! The analysis of a module misses nothing and counts nothing twice: wherever in the tree a call of
`require` or a declaration that names a module stands, there is one request for it. -/
namespace ModuleBundler
open ModuleBundler.Text

/-! ## What asks for a module, and what for -/

/-- The expression calls what is named `require`, with these arguments. -/
def Expr.CallsRequire (e : Expr) (args : List Expr) : Prop :=
  ∃ callee, e.form = .call false callee args ∧ callee.form = .ident "require"

/-- The expression is a string, or a template without substitutions. -/
def Expr.IsFixed (e : Expr) : Prop :=
  (∃ text, e.form = .string text) ∨ ∃ texts, e.form = .template texts []

/-- The expression is a fixed text, and that is its value. -/
def Expr.Spells (e : Expr) (text : String) : Prop :=
  e.form = .string text ∨ e.form = .template [text] []

/-- The item is a declaration that names a module. -/
inductive Item.Names : Item → ModuleSource → Prop
  | imports (span : Span) (d : ImportDecl) : Names ⟨span, .importDecl d⟩ d.source
  | exports (span : Span) (names : List ExportSpecifier) (m : ModuleSource) :
    Names ⟨span, .exportDecl (.named names (some m))⟩ m
  | exportsAll (span : Span) (m : ModuleSource) (name : Option Ident) :
    Names ⟨span, .exportDecl (.all m name)⟩ m

/-- The part is a call of `require`, or a declaration that names a module. -/
inductive Visit.Asks : Visit → Prop
  | call {e : Expr} {args : List Expr} : e.CallsRequire args → Asks (.expr e)
  | declaration {i : Item} {m : ModuleSource} : i.Names m → Asks (.item i)

/-- The request that a part makes: for the text of the only argument of a call, or for the module
that a declaration names. -/
inductive Visit.AsksFor : Visit → Request → Prop
  | call {e arg : Expr} {text : String} : e.CallsRequire [arg] → arg.Spells text →
    AsksFor (.expr e) ⟨text, arg.span⟩
  | declaration {i : Item} {m : ModuleSource} : i.Names m →
    AsksFor (.item i) ⟨m.specifier, m.span⟩

/-- The expression at an address calls `require`, but not with a fixed text as the only argument. -/
def Program.DynamicAt (program : Program) (place : List Nat) (e : Expr) : Prop :=
  (Visit.program program).at? place = some (.expr e) ∧
    ∃ args, e.CallsRequire args ∧ ¬ ∃ arg, args = [arg] ∧ arg.IsFixed

/-- Each part that asks for a module makes one request, and the argument of a call is replaced by
the name of the module that answers the request. -/
structure Analysis.Exact (program : Program) (a : Analysis) (sites : List (List Nat × Visit)) :
    Prop where
  nodup : sites.Nodup
  complete : ∀ place v,
    (place, v) ∈ sites ↔ (Visit.program program).at? place = some v ∧ v.Asks
  requests : List.Forall₂ (fun site r => site.2.AsksFor r) sites a.requests
  replaced : ∀ (i : Nat) place e r, sites[i]? = some (place, .expr e) → a.requests[i]? = some r →
    a.replacements.filter (fun s => s.span = r.span) = [⟨r.span, [.id i]⟩]

/-! ## Calls -/

namespace Expr
variable {e arg : Expr} {args : List Expr} {text : String}

theorem identName?_eq_some {name : String} : e.identName? = some name ↔ e.form = .ident name := by
  obtain ⟨s, form⟩ := e
  cases form <;> simp [identName?]

theorem Spells.staticString? (h : e.Spells text) : e.staticString? = some text := by
  obtain ⟨s, form⟩ := e
  rcases h with rfl | rfl <;> rfl

/-- A template without substitutions has a single text. -/
theorem IsFixed.spells (h : e.IsFixed) (he : (Visit.expr e).WellFormed) :
    ∃ text, e.Spells text := by
  obtain ⟨s, form⟩ := e
  rcases h with ⟨text, rfl⟩ | ⟨texts, rfl⟩
  · exact ⟨text, .inl rfl⟩
  · obtain ⟨text, rfl⟩ :=
      List.length_eq_one_iff.mp (beq_iff_eq.mp (Visit.wellFormed_expr.mp he).1)
    exact ⟨text, .inr rfl⟩

theorem isFixed_of_staticString? (h : e.staticString? = some text) : e.IsFixed := by
  obtain ⟨s, form⟩ := e
  unfold Expr.staticString? at h
  split at h
  · next v hf => exact .inl ⟨v, hf⟩
  · next texts hf => exact .inr ⟨texts, hf⟩
  · cases h

namespace CallsRequire

theorem static (h : e.CallsRequire [arg]) (ht : arg.Spells text) :
    e.requireCall? = some (.static text arg.span) := by
  obtain ⟨s, form⟩ := e
  obtain ⟨callee, rfl, hc⟩ := h
  rw [requireCall?_call, if_pos (identName?_eq_some.mpr hc)]
  simp only [ht.staticString?]

theorem dynamic (h : e.CallsRequire args) (hn : ¬ ∃ arg, args = [arg] ∧ arg.IsFixed) :
    e.requireCall? = some (.dynamic e.span) := by
  obtain ⟨s, form⟩ := e
  obtain ⟨callee, rfl, hc⟩ := h
  rw [requireCall?_call, if_pos (identName?_eq_some.mpr hc)]
  split
  · next arg =>
    split
    · next text ht => exact absurd ⟨arg, rfl, isFixed_of_staticString? ht⟩ hn
    · rfl
  · rfl

theorem wellFormed (h : e.CallsRequire args) (he : (Visit.expr e).WellFormed) :
    ∀ arg ∈ args, (Visit.expr arg).WellFormed := by
  obtain ⟨s, form⟩ := e
  obtain ⟨callee, rfl, -⟩ := h
  have hparts := (Visit.wellFormed_expr.mp he).2
  rw [ExprForm.parts, formed_cons, formed_map] at hparts
  exact hparts.2

end CallsRequire

theorem callsRequire_of_requireCall? {call : RequireCall} (h : e.requireCall? = some call) :
    ∃ args, e.CallsRequire args := by
  unfold requireCall? at h
  split at h
  · next callee args hf =>
    split at h
    · next hc => exact ⟨args, callee, hf, identName?_eq_some.mp hc⟩
    · cases h
  · cases h

/-- A call of `require` has a fixed text as its only argument, or it is any other call. -/
theorem requireCall?_cases {call : RequireCall} (he : (Visit.expr e).WellFormed)
    (h : e.requireCall? = some call) :
    (∃ arg text, call = .static text arg.span ∧ e.CallsRequire [arg] ∧ arg.Spells text) ∨
    (call = .dynamic e.span ∧
      ∃ args, e.CallsRequire args ∧ ¬ ∃ arg, args = [arg] ∧ arg.IsFixed) := by
  obtain ⟨args, hcall⟩ := callsRequire_of_requireCall? h
  by_cases hf : ∃ arg, args = [arg] ∧ arg.IsFixed
  · obtain ⟨arg, rfl, hf⟩ := hf
    obtain ⟨text, ht⟩ := hf.spells (hcall.wellFormed he arg List.mem_cons_self)
    exact .inl ⟨arg, text, Option.some.inj (h.symm.trans (hcall.static ht)), hcall, ht⟩
  · exact .inr ⟨Option.some.inj (h.symm.trans (hcall.dynamic hf)), args, hcall, hf⟩

end Expr

/-! ## Parts -/

theorem Item.source?_eq_some {i : Item} {m : ModuleSource} :
    i.source? = some m ↔ i.Names m := by
  constructor
  · intro h
    obtain ⟨span, form⟩ := i
    cases form with
    | importDecl d =>
      obtain rfl := Option.some.inj h
      exact .imports span d
    | stmt s => cases h
    | exportDecl d =>
      cases d with
      | named names m' =>
        obtain rfl : m' = some m := h
        exact .exports span names m
      | all m' name =>
        obtain rfl := Option.some.inj h
        exact .exportsAll span m' name
      | _ => cases h
  · rintro ⟨⟩ <;> rfl

namespace Visit
variable {v : Visit} {r : Request} {span : Span}

theorem WellFormed.at? {u : Visit} {place : List Nat} (hv : v.WellFormed)
    (h : v.at? place = some u) : u.WellFormed := by
  induction place generalizing v with
  | nil =>
    cases h
    exact hv
  | cons i place ih =>
    obtain ⟨p, hp, h⟩ := Option.bind_eq_some_iff.mp h
    exact ih ((wellFormed_iff.mp hv).2 p (List.mem_of_getElem? hp)) h

theorem AsksFor.asks (h : v.AsksFor r) : v.Asks := by
  cases h with
  | call hcall _ => exact .call hcall
  | declaration hm => exact .declaration hm

theorem AsksFor.asked? (h : v.AsksFor r) : v.asked? = some r := by
  cases h with
  | call hcall ht => exact Option.bind_eq_some_iff.mpr ⟨_, hcall.static ht, rfl⟩
  | declaration hm => exact Option.map_eq_some_iff.mpr ⟨_, Item.source?_eq_some.mpr hm, rfl⟩

theorem asksFor_of_asked? (hv : v.WellFormed) (h : v.asked? = some r) : v.AsksFor r := by
  cases v with
  | item i =>
    obtain ⟨m, hm, rfl⟩ := Option.map_eq_some_iff.mp h
    exact .declaration (Item.source?_eq_some.mp hm)
  | expr e =>
    obtain ⟨call, hc, hr⟩ := Option.bind_eq_some_iff.mp h
    rcases e.requireCall?_cases hv hc with ⟨arg, text, rfl, hcall, ht⟩ | ⟨rfl, -⟩
    · cases hr
      exact .call hcall ht
    · cases hr
  | _ => cases h

theorem dynamic?_eq_some (hv : v.WellFormed) : v.dynamic? = some span ↔
    ∃ e args, v = .expr e ∧ e.span = span ∧ e.CallsRequire args
      ∧ ¬ ∃ arg, args = [arg] ∧ arg.IsFixed := by
  constructor
  · intro h
    obtain ⟨call, hc, hs⟩ := Option.bind_eq_some_iff.mp h
    cases v with
    | expr e =>
      rcases e.requireCall?_cases hv hc with ⟨arg, text, rfl, -⟩ | ⟨rfl, args, hcall, hn⟩
      · cases hs
      · exact ⟨e, args, rfl, Option.some.inj hs, hcall, hn⟩
    | _ => cases hc
  · rintro ⟨e, args, rfl, rfl, hcall, hn⟩
    exact Option.bind_eq_some_iff.mpr ⟨_, hcall.dynamic hn, rfl⟩

/-- A part that asks makes a request, unless it is a call without a fixed text. -/
theorem Asks.asked? (h : v.Asks) (hv : v.WellFormed) (hd : v.dynamic? = none) :
    ∃ r, v.asked? = some r := by
  cases h with
  | declaration hm => exact ⟨_, (AsksFor.declaration hm).asked?⟩
  | @call e args hcall =>
    by_cases hf : ∃ arg, args = [arg] ∧ arg.IsFixed
    · obtain ⟨arg, rfl, hf⟩ := hf
      obtain ⟨text, ht⟩ := hf.spells (hcall.wellFormed hv arg List.mem_cons_self)
      exact ⟨_, (AsksFor.call hcall ht).asked?⟩
    · have hs := (dynamic?_eq_some hv).mpr ⟨e, args, rfl, rfl, hcall, hf⟩
      rw [hd] at hs
      cases hs

end Visit

/-! ## The analysis -/

namespace Analysis
variable {source : String} {program : Program} {analysis : Analysis}

theorem dynamic_foldl (source : List Char) (vs : List Visit) (d : Draft) :
    (vs.foldl (Draft.visit source) d).dynamic
      = d.dynamic.or (vs.findSome? Visit.dynamic?) := by
  induction vs generalizing d with
  | nil => simp
  | cons v vs ih =>
    have hv : (d.visit source v).dynamic = d.dynamic.or v.dynamic? := by
      cases v with
      | expr e =>
        simp only [Draft.visit, Visit.dynamic?, Visit.requireCall?]
        cases e.requireCall? with
        | none => simp
        | some call => cases call <;> simp [Draft.add, RequireCall.dynamic?]
      | _ => simp [Draft.visit, Draft.add, Visit.dynamic?, Visit.requireCall?]
    rw [List.foldl_cons, ih, hv, List.findSome?_cons]
    cases d.dynamic <;> cases v.dynamic? <;> rfl

/-- What has been planned stays planned. -/
theorem prefix_foldl (source : List Char) (vs : List Visit) (d : Draft) :
    d.replacements <+: (vs.foldl (Draft.visit source) d).replacements := by
  induction vs generalizing d with
  | nil => exact List.prefix_rfl
  | cons v vs ih =>
    refine List.IsPrefix.trans ?_ (ih (d.visit source v))
    unfold Draft.visit
    split
    · exact List.prefix_append _ _
    · split
      · exact List.prefix_append _ _
      · exact List.prefix_rfl
      · exact List.prefix_rfl
    · exact List.prefix_rfl

/-- A call that makes a request has its argument replaced by the answer. -/
theorem mem_replacements_foldl (source : List Char) {vs : List Visit} (d : Draft) {i : Nat}
    {e : Expr} {r : Request} (hv : (vs.filter fun v => v.asked?.isSome)[i]? = some (.expr e))
    (hr : (vs.filterMap Visit.asked?)[i]? = some r) :
    ⟨r.span, [.id (d.requests.length + i)]⟩
      ∈ (vs.foldl (Draft.visit source) d).replacements := by
  induction vs generalizing d i with
  | nil => cases hv
  | cons v vs ih =>
    have hd := requests_visit source d v
    cases ha : v.asked? with
    | none =>
      rw [List.filter_cons_of_neg (by simp [ha])] at hv
      rw [List.filterMap_cons_none ha] at hr
      have hin := ih (d.visit source v) hv hr
      rwa [hd, ha, Option.toList_none, List.append_nil] at hin
    | some s =>
      rw [List.filter_cons_of_pos (by simp [ha])] at hv
      rw [List.filterMap_cons_some ha] at hr
      cases i with
      | zero =>
        obtain rfl : v = .expr e := Option.some.inj hv
        obtain rfl : s = r := Option.some.inj hr
        refine (prefix_foldl source vs _).subset ?_
        obtain ⟨call, hc, hs⟩ := Option.bind_eq_some_iff.mp ha
        change e.requireCall? = some call at hc
        cases call with
        | dynamic => cases hs
        | static text span =>
          cases hs
          simp [Draft.visit, hc, Draft.add]
      | succ i =>
        have hin := ih (d.visit source v) hv hr
        rw [hd, ha, Option.toList_some, List.length_append, List.length_singleton] at hin
        rwa [Nat.add_assoc, Nat.add_comm 1] at hin

theorem draft_dynamic (program : Program) (source : List Char) :
    (draft program source).dynamic = program.visits.findSome? Visit.dynamic? :=
  dynamic_foldl source program.visits _

theorem draft_requests (program : Program) (source : List Char) :
    (draft program source).requests = program.visits.filterMap Visit.asked? :=
  requests_foldl source program.visits _

theorem draft_replaced (program : Program) (source : List Char) {i : Nat} {e : Expr} {r : Request}
    (hv : (program.visits.filter fun v => v.asked?.isSome)[i]? = some (.expr e))
    (hr : (program.visits.filterMap Visit.asked?)[i]? = some r) :
    ⟨r.span, [.id i]⟩ ∈ (draft program source).replacements := by
  have hin : ⟨r.span, [.id (0 + i)]⟩ ∈ (draft program source).replacements :=
    mem_replacements_foldl source _ hv hr
  rwa [Nat.zero_add] at hin

theorem ofProgram_eq_error {span : Span} :
    ofProgram program source = .error span
      ↔ program.visits.findSome? Visit.dynamic? = some span := by
  rw [ofProgram, draft_dynamic]
  cases program.visits.findSome? Visit.dynamic? <;> simp

/-- The requests of an analysis are those of the parts of the module, each in its turn. -/
theorem of_ofProgram (h : ofProgram program source = .ok analysis) :
    program.visits.findSome? Visit.dynamic? = none ∧
    analysis.requests = program.visits.filterMap Visit.asked? ∧
    ∀ (i : Nat) e r, (program.visits.filter fun v => v.asked?.isSome)[i]? = some (.expr e) →
      analysis.requests[i]? = some r → ⟨r.span, [.id i]⟩ ∈ analysis.replacements := by
  unfold ofProgram at h
  dsimp only at h
  split at h
  · cases h
  · next hnone =>
    obtain rfl := Except.ok.inj h
    rw [draft_dynamic] at hnone
    refine ⟨hnone, draft_requests program _, fun i e r hv hr => ?_⟩
    rw [draft_requests] at hr
    simp only [List.append_assoc]
    exact List.mem_append_left _ (draft_replaced program _ hv hr)

/-- The end mark is no argument, and no other token is empty. -/
theorem callsAt_le_count (h : Program.parse source = .ok program) (sp : Span) :
    ∃ ts : List Token, (∀ t ∈ ts, t.span.start < t.span.stop) ∧
      callsAt sp program.visits ≤ (ts.map Token.span).count sp := by
  obtain ⟨hc, -⟩ := Cursor.placed_tokenize source
  obtain ⟨c', ht, hend⟩ := Program.takes_of_tokens h hc.ended
  obtain ⟨w, hw, -, -, hcount, -⟩ := ht hc.ended
  obtain ⟨line, ts, last, -, htokens, -, -, hts, -⟩ := tokenize_tiles source
  have hw' : (Cursor.ofTokens (tokenize source)).current
      :: (Cursor.ofTokens (tokenize source)).ahead = ts ++ [last] := by
    obtain ⟨t, us, hu⟩ := tokenize_cons source
    rw [ofTokens_tokenize hu, ← htokens, hu]
  have hkind : c'.current.kind = .eof := by simpa [Cursor.atEnd] using hend
  obtain rfl := eq_of_ends (hw'.symm.trans hw.tokens) hkind fun t h => (hts t h).1
  exact ⟨w, fun t h => (hts t h).2, Nat.le_trans (hcount (.calls sp)) (argumentsAt_le sp _ w)⟩

/-- The text that a call of `require` asks for is a token of the source. -/
theorem span_nonempty (h : Program.parse source = .ok program) {v : Visit} {r : Request}
    (hv : v ∈ program.visits) (hr : v.request? = some r) : r.span.start < r.span.stop := by
  obtain ⟨ts, hts, hle⟩ := callsAt_le_count h r.span
  have hasked : r.span ∈ (program.visits.filterMap Visit.request?).map Request.span :=
    List.mem_map_of_mem (List.mem_filterMap.mpr ⟨v, hv, hr⟩)
  rw [← count_requests] at hle
  have hin : r.span ∈ ts.map Token.span :=
    List.count_pos_iff.mp (Nat.lt_of_lt_of_le (List.count_pos_iff.mpr hasked) hle)
  obtain ⟨t, ht, hspan⟩ := List.mem_map.mp hin
  exact hspan ▸ hts t ht

/-- Of replacements that stand apart only one has the span of a text. -/
theorem filter_span_eq {replacements : List Replacement} {s : Replacement}
    (h : (replacements.map Replacement.span).Pairwise Span.Apart) (hs : s ∈ replacements)
    (hn : s.span.start < s.span.stop) :
    replacements.filter (fun t => t.span = s.span) = [s] := by
  obtain ⟨before, after, rfl⟩ := List.append_of_mem hs
  rw [List.pairwise_map] at h
  obtain ⟨-, ha, hb⟩ := List.pairwise_append.mp h
  have hne {t : Replacement} (ht : s.span.Apart t.span) : decide (t.span = s.span) = false := by
    refine decide_eq_false fun he => ?_
    rw [he] at ht
    rcases ht with ht | ht <;> omega
  have hbefore : before.filter (fun t => t.span = s.span) = [] :=
    List.filter_eq_nil_iff.mpr fun t ht => by simp [hne (hb t ht s List.mem_cons_self).symm]
  have hafter : after.filter (fun t => t.span = s.span) = [] :=
    List.filter_eq_nil_iff.mpr fun t ht => by simp [hne ((List.pairwise_cons.mp ha).1 t ht)]
  rw [List.filter_append, List.filter_cons_of_pos (by simp), hbefore, hafter]
  rfl

/-- A list of parts and the requests that they make belong together one by one. -/
theorem forall₂_asked (l : List (List Nat × Visit)) :
    List.Forall₂ (fun site r => site.2.asked? = some r) (l.filter fun site => site.2.asked?.isSome)
      ((l.map Prod.snd).filterMap Visit.asked?) := by
  induction l with
  | nil => exact .nil
  | cons site l ih =>
    cases h : site.2.asked? with
    | none =>
      rw [List.filter_cons_of_neg (by simp [h]), List.map_cons, List.filterMap_cons_none h]
      exact ih
    | some r =>
      rw [List.filter_cons_of_pos (by simp [h]), List.map_cons, List.filterMap_cons_some h]
      exact .cons h ih

/-- An analysis that does not fail has the requests of all parts that ask, one for each. -/
theorem exact_of_ok (h : Program.parse source = .ok program)
    (ha : ofProgram program source = .ok analysis) : ∃ sites, analysis.Exact program sites := by
  have hwf := Program.wellFormed_of_parse h
  obtain ⟨l, hl⟩ := (Visit.program program).exists_lists
  have hwalk : l.map Prod.snd = program.visits := hl.walk
  obtain ⟨hnone, hrequests, hreplaced⟩ := of_ofProgram ha
  have hasked := forall₂_asked l
  rw [hwalk, ← hrequests] at hasked
  refine ⟨l.filter fun site => site.2.asked?.isSome, hl.nodup.filter _, ?_, ?_, ?_⟩
  · intro place v
    rw [List.mem_filter, hl.mem, Option.isSome_iff_exists]
    refine and_congr_right fun hat => ⟨?_, fun hasks => ?_⟩
    · rintro ⟨r, hr⟩
      exact (Visit.asksFor_of_asked? (hwf.at? hat) hr).asks
    · have hv : v ∈ program.visits := by
        rw [← hwalk]
        exact List.mem_map_of_mem ((hl.mem place v).mpr hat)
      exact hasks.asked? (hwf.at? hat) (List.findSome?_eq_none_iff.mp hnone v hv)
  · have hat : ∀ site ∈ l.filter fun site => site.2.asked?.isSome,
        (Visit.program program).at? site.1 = some site.2 := by
      rintro ⟨place, v⟩ hs
      exact (hl.mem place v).mp (List.mem_filter.mp hs).1
    exact ((List.forall₂_and_left _ _).mpr ⟨hat, hasked⟩).imp fun site r hs =>
      Visit.asksFor_of_asked? (hwf.at? hs.1) hs.2
  · intro i place e r hsite hr
    have hv : (program.visits.filter fun v => v.asked?.isSome)[i]? = some (.expr e) := by
      rw [← hwalk, List.filter_map, List.getElem?_map]
      exact congrArg (Option.map Prod.snd) hsite
    have hin := hreplaced i e r hv hr
    have he : (Visit.expr e).request? = some r := by
      obtain ⟨hi, hsite⟩ := List.getElem?_eq_some_iff.mp hsite
      obtain ⟨hi', hr⟩ := List.getElem?_eq_some_iff.mp hr
      have hget := hasked.get hi hi'
      rw [List.get_eq_getElem, List.get_eq_getElem, hsite, hr] at hget
      exact hget
    have hmem : Visit.expr e ∈ program.visits :=
      (List.mem_filter.mp (List.mem_of_getElem? hv)).1
    exact filter_span_eq (tidy_replacements h ha).apart hin (span_nonempty h hmem he)

/-- The analysis of a module that is read fails if a call of `require` anywhere in the tree has
anything but a fixed text as its only argument, and only then. Otherwise it has one request for
each call of `require` and for each declaration that names a module, and no others. A request for
a call has the value and the span of the argument, of which there is one replacement. -/
theorem exact_of_parse {source : String} {program : Program}
    (h : Program.parse source = .ok program) :
    ((∃ span, ofProgram program source = .error span) ↔ ∃ place e, program.DynamicAt place e) ∧
    (∀ span, ofProgram program source = .error span →
      ∃ place e, program.DynamicAt place e ∧ e.span = span) ∧
    ∀ analysis, ofProgram program source = .ok analysis →
      ∃ sites, analysis.Exact program sites := by
  have hwf := Program.wellFormed_of_parse h
  obtain ⟨l, hl⟩ := (Visit.program program).exists_lists
  have hmem (v : Visit) : v ∈ program.visits ↔ ∃ place, (place, v) ∈ l := by
    have hw : l.map Prod.snd = program.visits := hl.walk
    rw [← hw]
    simp
  have herror : ∀ span, ofProgram program source = .error span →
      ∃ place e, program.DynamicAt place e ∧ e.span = span := by
    intro span hs
    obtain ⟨v, hv, hd⟩ := List.exists_of_findSome?_eq_some (ofProgram_eq_error.mp hs)
    obtain ⟨place, hp⟩ := (hmem v).mp hv
    have hat := (hl.mem place v).mp hp
    obtain ⟨e, args, rfl, he, hcall⟩ := (Visit.dynamic?_eq_some (hwf.at? hat)).mp hd
    exact ⟨place, e, ⟨hat, args, hcall⟩, he⟩
  refine ⟨⟨?_, ?_⟩, herror, fun analysis ha => exact_of_ok h ha⟩
  · rintro ⟨span, hs⟩
    obtain ⟨place, e, hd, -⟩ := herror span hs
    exact ⟨place, e, hd⟩
  · rintro ⟨place, e, hat, args, hcall⟩
    have hd := (Visit.dynamic?_eq_some (hwf.at? hat)).mpr ⟨e, args, rfl, rfl, hcall⟩
    have hv := (hmem _).mpr ⟨place, (hl.mem place _).mpr hat⟩
    cases hf : program.visits.findSome? Visit.dynamic? with
    | some span => exact ⟨span, ofProgram_eq_error.mpr hf⟩
    | none =>
      rw [List.findSome?_eq_none_iff.mp hf _ hv] at hd
      cases hd

/-- Two declarations that name modules, and calls in a default, a key, a block and a template. -/
def scattered : String :=
  "import './a';\nexport \x7b\x7d from './b';\nfunction f(\x7bx = require('./c')\x7d) \x7b\x7d\n"
    ++ "class C \x7b [require(`./d`)] = 1; static \x7b f(`$\x7brequire('./e')\x7d`); \x7d \x7d"

theorem exact_scattered : ∃ program analysis, Program.parse scattered = .ok program ∧
    ofProgram program scattered = .ok analysis ∧
    analysis.requests.map (·.specifier) = [ "./a", "./b", "./c", "./d", "./e" ] ∧
    (¬ ∃ place e, program.DynamicAt place e) ∧ ∃ sites, analysis.Exact program sites := by
  have hs : ((Program.parse scattered).toOption.bind fun p => (ofProgram p scattered).toOption).map
      (fun a => a.requests.map (·.specifier)) = some [ "./a", "./b", "./c", "./d", "./e" ] := by
    decide +kernel
  cases hp : Program.parse scattered with
  | error e =>
    rw [hp] at hs
    cases hs
  | ok program =>
    rw [hp] at hs
    obtain ⟨analysis, ha, hr⟩ := Option.map_eq_some_iff.mp hs
    change (ofProgram program scattered).toOption = some analysis at ha
    cases ho : ofProgram program scattered with
    | error span =>
      rw [ho] at ha
      cases ha
    | ok a =>
      rw [ho] at ha
      cases ha
      obtain ⟨hdynamic, -, hexact⟩ := exact_of_parse hp
      refine ⟨program, analysis, rfl, ho, hr, fun hd => ?_, hexact analysis ho⟩
      obtain ⟨span, hs⟩ := hdynamic.mpr hd
      rw [ho] at hs
      cases hs

/-- A template with a substitution is no fixed text, wherever the call stands. -/
example :
    let source := "export default class \x7b [require(`./$\x7ba\x7d`)]() \x7b\x7d \x7d"
    ((Program.parse source).toOption.map fun p => (ofProgram p source).toOption.isNone)
      = some true := by decide +kernel

end Analysis
end ModuleBundler
