import ModuleBundler.Proofs.Analysis.Request
import ModuleBundler.Proofs.Token.Source

/-! A module without import and export declarations whose requests are answered: nothing changes in
it but the texts that the requests are made with. -/
namespace ModuleBundler
open ModuleBundler.Text

/-- The answers to requests, in their order: each for the text that the request is made with. -/
def Request.answers (requests : List Request) (ids : List String) : Answers :=
  fun span => ((requests.map Request.span).zip ids).lookup span

section Lookup
variable {κ υ : Type} [BEq κ] [LawfulBEq κ]

theorem lookup_zip {keys : List κ} {values : List υ} (hn : keys.Nodup)
    (hl : values.length = keys.length) :
    keys.map (fun k => (keys.zip values).lookup k) = values.map some := by
  induction keys generalizing values with
  | nil =>
    cases values with
    | nil => rfl
    | cons v vs => cases hl
  | cons k ks ih =>
    cases values with
    | nil => cases hl
    | cons v vs =>
      obtain ⟨hk, hks⟩ := List.nodup_cons.mp hn
      rw [List.map_cons, List.zip_cons_cons, List.lookup_cons_self, List.map_cons,
        ← ih hks (Nat.succ.inj hl)]
      refine congrArg _ (List.map_congr_left fun j hj => ?_)
      have hne : (j == k) = false := by
        rw [beq_eq_false_iff_ne]
        rintro rfl
        exact hk hj
      rw [List.lookup_cons, hne]

theorem mem_of_lookup_zip {keys : List κ} {values : List υ} {k : κ}
    (h : ((keys.zip values).lookup k).isSome) : k ∈ keys := by
  induction keys generalizing values with
  | nil => cases h
  | cons j ks ih =>
    cases values with
    | nil => cases h
    | cons v vs =>
      rw [List.zip_cons_cons, List.lookup_cons] at h
      cases hj : k == j with
      | true =>
        rw [eq_of_beq hj]
        exact List.mem_cons_self
      | false =>
        rw [hj] at h
        exact List.mem_cons_of_mem _ (ih h)

theorem isSome_lookup_zip {keys : List κ} {values : List υ} {k : κ}
    (hl : values.length = keys.length) (h : k ∈ keys) :
    ((keys.zip values).lookup k).isSome := by
  induction keys generalizing values with
  | nil => cases h
  | cons j ks ih =>
    cases values with
    | nil => cases hl
    | cons v vs =>
      rw [List.zip_cons_cons, List.lookup_cons]
      cases hj : k == j with
      | true => rfl
      | false =>
        have hne : k ≠ j := by simpa using hj
        exact ih (Nat.succ.inj hl) (List.mem_of_ne_of_mem hne h)

end Lookup

variable {a : Answers}

/-! ## Answers for requests are answers for arguments -/

/-- If every answer is for an argument, and tokens stand apart, only arguments have answers. -/
theorem argumentsOnly_of_counts {previous : Token} {ts : List Token}
    (hn : (ts.map Token.span).Nodup)
    (h : ∀ sp ∈ ts.map Token.span, (a sp).isSome → 1 ≤ argumentsAt sp previous ts) :
    ArgumentsOnly a previous ts := by
  induction ts generalizing previous with
  | nil => trivial
  | cons t ts ih =>
    obtain ⟨ht, hts⟩ := List.nodup_cons.mp hn
    refine ⟨fun hs => ?_, ih hts fun sp hsp hs => ?_⟩
    · have hc := h t.span (by simp) hs
      have hle := argumentsAt_le t.span t ts
      rw [List.count_eq_zero.mpr ht] at hle
      rw [argumentsAt] at hc
      split at hc
      · next hi => exact hi.1
      · omega
    · have hc := h sp (List.mem_cons_of_mem _ hsp) hs
      rw [argumentsAt, if_neg] at hc
      · omega
      · rintro ⟨-, rfl⟩
        exact ht hsp

/-- The first token is no argument. -/
theorem argumentsAt_first {sp : Span} {t : Token} {ts : List Token} :
    argumentsAt sp t (t :: ts) = argumentsAt sp (Cursor.endMark []) (t :: ts) := by
  have ht : t.isArgument t = false := by
    rw [Token.isArgument]
    cases t.kind <;> simp [TokenKind.isText]
  rw [argumentsAt, argumentsAt, if_neg (by simp [ht]),
    if_neg (by simp [Token.isArgument, Cursor.endMark])]

theorem nodup_spans_tokenize (source : String) : ((tokenize source).map Token.span).Nodup := by
  rw [tokenize_eq]
  exact Scanner.nodup_spans _ _

section Requests
variable {source : String} {program : Program}

/-- The requests of a module with a span are at most as many as the arguments with it. -/
theorem count_requests_le (h : Program.parse source = .ok program) (sp : Span) :
    ((program.visits.filterMap Visit.request?).map Request.span).count sp
      ≤ argumentsAt sp (Cursor.endMark []) (tokenize source) := by
  obtain ⟨t, ts, ht⟩ := tokenize_cons source
  have hc := callsAt_le_argumentsAt h (.ofTokens (tokenize source)) sp
  rw [ofTokens_tokenize ht, argumentsAt_first, ← ht] at hc
  rw [count_requests]
  exact hc

theorem nodup_requests (h : Program.parse source = .ok program) :
    ((program.visits.filterMap Visit.request?).map Request.span).Nodup := by
  refine List.nodup_iff_count.mpr fun sp => ?_
  have hc := count_requests_le h sp
  have ha := argumentsAt_le sp (Cursor.endMark []) (tokenize source)
  have hn := List.nodup_iff_count.mp (nodup_spans_tokenize source) sp
  omega

/-- Whatever has an answer is an argument. -/
theorem forArguments_answers (h : Program.parse source = .ok program) (ids : List String) :
    (Request.answers (program.visits.filterMap Visit.request?) ids).ForArguments source := by
  refine argumentsOnly_of_counts (nodup_spans_tokenize source) fun sp _ hs => ?_
  have hm := List.count_pos_iff.mpr (mem_of_lookup_zip hs)
  exact Nat.le_trans hm (count_requests_le h sp)

/-- A request is for a token of the text. -/
theorem mem_spans_of_request (h : Program.parse source = .ok program) {sp : Span}
    (hs : sp ∈ (program.visits.filterMap Visit.request?).map Request.span) :
    sp ∈ (tokenize source).map Token.span := by
  have hm := List.count_pos_iff.mpr hs
  have hc := count_requests_le h sp
  have ha := argumentsAt_le sp (Cursor.endMark []) (tokenize source)
  exact List.count_pos_iff.mp (by omega)

end Requests

/-! ## The edits of a module -/

/-- The edit that an answer for a span makes. -/
def Answers.edit? (a : Answers) (span : Span) : Option Edit := (a span).map fun v => ⟨span, quote v⟩

theorem Answers.edits_eq (a : Answers) (tokens : List Token) :
    a.edits tokens = (tokens.map Token.span).filterMap a.edit? := by
  rw [List.filterMap_map]
  rfl

theorem answers_getElem {requests : List Request} {ids : List String}
    (hn : (requests.map Request.span).Nodup) (hl : ids.length = requests.length) {i : Nat}
    (hr : i < requests.length) (hi : i < ids.length) :
    Request.answers requests ids requests[i].span = some ids[i] := by
  have hk : ids.length = (requests.map Request.span).length := by simpa using hl
  have ha := congrArg (fun l => l[i]?) (lookup_zip hn hk)
  rw [Request.answers]
  simpa [hr, hi] using ha

/-- Each request is answered by an edit. -/
theorem edits_requests {requests : List Request} {ids : List String}
    (hn : (requests.map Request.span).Nodup) (hl : ids.length = requests.length) :
    (Analysis.requestReplacements 0 requests).map (·.edit ids)
      = (requests.map Request.span).filterMap (Request.answers requests ids).edit? := by
  have hk : (requests.map Request.span).map (Request.answers requests ids).edit?
      = ((Analysis.requestReplacements 0 requests).map (·.edit ids)).map some := by
    refine List.ext_getElem (by simp [Analysis.requestReplacements]) fun i hi hi' => ?_
    have hr : i < requests.length := by simpa using hi
    have hs : i < ids.length := by omega
    have ha := answers_getElem hn hl hr hs
    simp [Analysis.requestReplacements, Answers.edit?, ha, Replacement.edit, Piece.render, hs]
  have hf := congrArg (List.filterMap id) hk
  rw [List.filterMap_map, List.filterMap_map] at hf
  simpa using hf.symm

section Requests
variable {source : String} {program : Program} {ids : List String}

/-- The requests, in the order of the walk, are answered by the same edits as the tokens. -/
theorem edits_perm (h : Program.parse source = .ok program)
    (hl : ids.length = (program.visits.filterMap Visit.request?).length) :
    List.Perm
      ((Analysis.requestReplacements 0 (program.visits.filterMap Visit.request?)).map (·.edit ids))
      ((Request.answers (program.visits.filterMap Visit.request?) ids).edits
        (tokenize source)) := by
  have hn := nodup_requests h
  have hs := fun sp => @mem_spans_of_request _ _ h sp
  rw [edits_requests hn hl, Answers.edits_eq]
  generalize program.visits.filterMap Visit.request? = requests at *
  have hf : ((tokenize source).map Token.span).filterMap (Request.answers requests ids).edit?
      = (((tokenize source).map Token.span).filter fun sp =>
          (Request.answers requests ids sp).isSome).filterMap
        (Request.answers requests ids).edit? := by
    rw [List.filterMap_filter]
    congr 1
    funext sp
    cases ha : Request.answers requests ids sp <;> simp [Answers.edit?, ha]
  rw [hf]
  refine List.Perm.filterMap _ ?_
  refine (List.perm_ext_iff_of_nodup hn ((nodup_spans_tokenize source).filter _)).mpr fun sp => ?_
  rw [List.mem_filter]
  constructor
  · exact fun hm => ⟨hs sp hm, isSome_lookup_zip (by simpa using hl) hm⟩
  · exact fun hm => mem_of_lookup_zip hm.2

/-- A skipped line ends before the first token. -/
theorem hashbang_edit_before {e f : Edit} (a : Answers)
    (he : e ∈ (Analysis.hashbangReplacement source.toList).map (·.edit ids))
    (hf : f ∈ a.edits (tokenize source)) : e.span.start < f.span.start := by
  obtain ⟨t, ht, hf⟩ := List.mem_filterMap.mp hf
  obtain ⟨v, -, rfl⟩ := Option.map_eq_some_iff.mp hf
  rw [tokenize_eq] at ht
  have hs := (Scanner.tokens_ordered _ _).2 t ht
  unfold Analysis.hashbangReplacement at he
  split at he
  · next rest hc =>
    obtain rfl := List.mem_singleton.mp he
    have hb : 0 < byteSize (hashbang source.toList) := by
      have hx : ['#', '!'].isPrefixOf ('#' :: '!' :: rest) = true := rfl
      rw [hc, hashbang, if_pos hx, List.takeWhile_cons_of_pos (by decide), byteSize_cons]
      have := '#'.utf8Size_pos
      omega
    exact Nat.lt_of_lt_of_le hb hs
  · cases he

/-- The edits of a module make the text with the answers. -/
theorem apply_edits (h : Program.parse source = .ok program)
    (hl : ids.length = (program.visits.filterMap Visit.request?).length) :
    Edit.apply ((Analysis.requestReplacements 0 (program.visits.filterMap Visit.request?)
        ++ Analysis.hashbangReplacement source.toList).map (·.edit ids)) source
      = .ok ((Request.answers (program.visits.filterMap Visit.request?) ids).rewrite source) := by
  have hr := applyFrom_rewrite (forArguments_answers h ids) ids
  have hq := edits_perm h hl
  generalize program.visits.filterMap Visit.request? = requests at *
  have ho : ((Request.answers requests ids).edits (tokenize source)).Pairwise
      fun e f => e.span.start < f.span.start := by
    rw [tokenize_eq]
    exact Answers.edits_ordered (Scanner.tokens_ordered _ _).1
  have hh : ((Analysis.hashbangReplacement source.toList).map (·.edit ids)).Pairwise
      fun e f => e.span.start < f.span.start := by
    unfold Analysis.hashbangReplacement
    split
    · exact List.pairwise_singleton _ _
    · exact List.Pairwise.nil
  have hs := Edit.mergeSort_eq (List.perm_append_comm.trans (List.Perm.append_left _ hq))
    (List.pairwise_append.mpr ⟨hh, ho, fun e he f hf => hashbang_edit_before _ he hf⟩)
  rw [Edit.apply, List.map_append, hs, hr]
  exact congrArg Except.ok String.ofList_toList

end Requests

/-- A module without import and export declarations stays the same, but for the texts that its
requests are made with. -/
theorem Analysis.rewrites_only_requests {source : String} {program : Program} {analysis : Analysis}
    {ids : List String} (h : Program.parse source = .ok program)
    (hp : program.hasModuleSyntax = false) (ha : Analysis.ofProgram program source = .ok analysis)
    (hl : ids.length = analysis.requests.length) :
    ∃ text program' analysis',
      Edit.apply (analysis.edits ids) source = .ok text ∧
      Program.parse text = .ok program' ∧
      program'.bare .none = program.bare (Request.answers analysis.requests ids) ∧
      (analysis.requests.map Request.span).Nodup ∧
      Analysis.ofProgram program' text = .ok analysis' ∧
      analysis'.requests.map Request.specifier = ids := by
  obtain ⟨hd, rfl⟩ := (Analysis.ofProgram_ok hp).mp ha
  have hn := nodup_requests h
  have hf := forArguments_answers h ids
  have he := apply_edits h hl
  obtain ⟨program', h', hb⟩ := Program.ofTokens_twin (twin_rewrite hf) h
  have hp' : program'.hasModuleSyntax = false := by
    rw [← Program.hasModuleSyntax_bare (a := .none), hb, Program.hasModuleSyntax_bare, hp]
  have hv : program'.visits.map (Visit.bare .none) = program.visits.map (Visit.bare
      (Request.answers (program.visits.filterMap Visit.request?) ids)) := by
    rw [← Program.visits_bare, ← Program.visits_bare, hb]
  obtain ⟨hd', hr⟩ := requests_bare hv hd
  refine ⟨_, program', _, he, h', hb, hn, (Analysis.ofProgram_ok hp').mpr ⟨hd', rfl⟩, ?_⟩
  rw [hr]
  refine List.ext_getElem (by simpa using hl.symm) fun i hi hi' => ?_
  have hi : i < (program.visits.filterMap Visit.request?).length := by simpa using hi
  rw [List.getElem_map, answers_getElem hn hl hi hi', Option.getD_some]

/-- A first line for an interpreter, a text over two lines and the end of a module. -/
def Analysis.script : String := "#!/bin/node\nvar a = require(`./a\nb`)\nrequire('c')"

theorem Analysis.rewrites_only_requests_of_script : ∃ program analysis text program' analysis',
    Program.parse script = .ok program ∧
    Analysis.ofProgram program script = .ok analysis ∧
    analysis.requests.map Request.specifier = ["./a\nb", "c"] ∧
    Edit.apply (analysis.edits ["1", "2"]) script = .ok text ∧
    Program.parse text = .ok program' ∧
    program'.bare .none = program.bare (Request.answers analysis.requests ["1", "2"]) ∧
    Analysis.ofProgram program' text = .ok analysis' ∧
    analysis'.requests.map Request.specifier = ["1", "2"] := by
  have hs : (Program.parse script).toOption.bind (fun program =>
      (Analysis.ofProgram program script).toOption.map fun analysis =>
        (program.hasModuleSyntax, analysis.requests.map Request.specifier))
      = some (false, ["./a\nb", "c"]) := by decide +kernel
  cases h : Program.parse script with
  | error e => simp [h, Except.toOption] at hs
  | ok program =>
    cases ha : Analysis.ofProgram program script with
    | error e => simp [h, ha, Except.toOption] at hs
    | ok analysis =>
      simp only [h, ha, Except.toOption, Option.bind_some, Option.map_some, Option.some.injEq,
        Prod.mk.injEq] at hs
      obtain ⟨hp, hr⟩ := hs
      have hl : ["1", "2"].length = analysis.requests.length := by
        have := congrArg List.length hr
        simpa using this.symm
      obtain ⟨text, program', analysis', he, h', hb, -, ha', hi⟩ :=
        rewrites_only_requests h hp ha hl
      exact ⟨program, analysis, text, program', analysis', rfl, ha, hr, he, h', hb, ha', hi⟩

end ModuleBundler
