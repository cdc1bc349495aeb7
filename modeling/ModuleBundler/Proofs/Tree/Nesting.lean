import ModuleBundler.Proofs.Analysis.Apart
import ModuleBundler.Proofs.Tree.Outline
import ModuleBundler.Tree.Target

/-! Trees of spans that nest: each node covers some tokens, its parts stand in them, and parts next
to each other stand apart. -/
namespace ModuleBundler

namespace Span

/-- No byte of the span is outside of another one. -/
def In (a b : Span) : Prop := b.start ≤ a.start ∧ a.stop ≤ b.stop

/-- The span starts with the first of some tokens and ends with the last one. -/
structure Covers (a : Span) (w : List Token) : Prop where
  start : w.head?.map (·.span.start) = some a.start
  stop : w.getLast?.map (·.span.stop) = some a.stop

variable {a b d e : Span}

theorem In.refl (a : Span) : a.In a := ⟨Nat.le_refl _, Nat.le_refl _⟩

theorem In.trans (h : a.In b) (h' : b.In d) : a.In d :=
  ⟨Nat.le_trans h'.1 h.1, Nat.le_trans h.2 h'.2⟩

theorem in_merge_left (a b : Span) : a.In (a.merge b) := ⟨Nat.min_le_left _ _, Nat.le_max_left _ _⟩

theorem in_merge_right (a b : Span) : b.In (a.merge b) :=
  ⟨Nat.min_le_right _ _, Nat.le_max_right _ _⟩

theorem In.merge (h : a.In b) : (d.merge a).In (d.merge b) := by
  unfold In at *
  simp only [merge_start, merge_stop]
  omega

/-- What is inside of spans that are apart is apart. -/
theorem Apart.mono (h : a.Apart b) (hd : d.In a) (he : e.In b) : d.Apart e :=
  h.imp (fun h => Nat.le_trans hd.2 (Nat.le_trans h he.1))
    fun h => Nat.le_trans he.2 (Nat.le_trans h hd.1)

end Span

/-- Tokens that stand in a text one after the other. -/
structure Token.Ordered (w : List Token) : Prop where
  valid : ∀ t ∈ w, t.span.start ≤ t.span.stop
  apart : w.Pairwise fun t u => t.span.stop ≤ u.span.start

namespace Token.Ordered

variable {u v w : List Token} {a : Span} {t : Token}

theorem stretch (h : Ordered w) (hv : v <:+: w) : Ordered v :=
  ⟨fun t ht => h.valid t (hv.subset ht), h.apart.sublist hv.sublist⟩

/-- Each of the tokens is inside of a span that covers them all. -/
theorem in_of_covers (h : Ordered w) (ha : a.Covers w) (ht : t ∈ w) : t.span.In a := by
  constructor
  · cases w with
    | nil => cases ht
    | cons first w =>
      have hstart : first.span.start = a.start := by simpa using ha.start
      rw [← hstart]
      rcases List.mem_cons.mp ht with rfl | ht
      · exact Nat.le_refl _
      · have hfirst := h.valid first List.mem_cons_self
        exact Nat.le_trans hfirst ((List.pairwise_cons.mp h.apart).1 t ht)
  · rcases List.eq_nil_or_concat w with rfl | ⟨w, last, rfl⟩
    · cases ht
    · rw [List.concat_eq_append] at h ht ha
      have hstop : last.span.stop = a.stop := by simpa using ha.stop
      rw [← hstop]
      rcases List.mem_append.mp ht with ht | ht
      · have hlast := h.valid last (by simp)
        exact Nat.le_trans ((List.pairwise_append.mp h.apart).2.2 t ht last (by simp)) hlast
      · obtain rfl := List.mem_singleton.mp ht
        exact Nat.le_refl _

end Token.Ordered

namespace Outline

/-- The spans of a tree nest among some tokens: a node covers tokens that its parts stand in,
each apart from the others. A key may share tokens with the value that it stands for. -/
inductive Nested : List Token → Outline → Prop
  | node {w v : List Token} {span : Span} {parts : List Outline} (window : v <:+: w)
      (covers : span.Covers v) (inner : ∀ o ∈ parts, Nested v o)
      (apart : parts.Pairwise fun o p => o.extent.Apart p.extent) : Nested w (.node span parts)
  | shorthand {w : List Token} {key : Span} {value : Outline} (name : Nested w (.node key []))
      (inner : Nested w value) : Nested w (.shorthand key value)

/-- Trees that stand among some tokens, each apart from the others. -/
structure Laid (w : List Token) (os : List Outline) : Prop where
  nested : ∀ o ∈ os, o.Nested w
  apart : os.Pairwise fun o p => o.extent.Apart p.extent

variable {u v w : List Token} {o p : Outline} {os ps qs : List Outline} {a : Span} {t : Token}

theorem Nested.mono (h : o.Nested v) (hv : v <:+: w) : o.Nested w := by
  induction h generalizing w with
  | node window covers inner apart => exact .node (window.trans hv) covers inner apart
  | shorthand _ _ ihName ihInner => exact .shorthand (ihName hv) (ihInner hv)

/-- A tree starts with one of the tokens and ends with one. -/
theorem Nested.ends (h : o.Nested w) :
    (∃ t ∈ w, t.span.start = o.extent.start) ∧ ∃ t ∈ w, t.span.stop = o.extent.stop := by
  induction h with
  | node window covers =>
    constructor
    · obtain ⟨t, ht, hs⟩ := Option.map_eq_some_iff.mp covers.start
      exact ⟨t, window.subset (List.mem_of_mem_head? ht), hs⟩
    · obtain ⟨t, ht, hs⟩ := Option.map_eq_some_iff.mp covers.stop
      exact ⟨t, window.subset (List.mem_of_getLast? ht), hs⟩
  | @shorthand w key value _ _ ihName ihInner =>
    obtain ⟨⟨first, hfirst, hstart⟩, last, hlast, hstop⟩ := ihName
    obtain ⟨⟨first', hfirst', hstart'⟩, last', hlast', hstop'⟩ := ihInner
    constructor
    · rcases Nat.le_total key.start value.extent.start with h | h
      · exact ⟨first, hfirst, hstart.trans (Nat.min_eq_left h).symm⟩
      · exact ⟨first', hfirst', hstart'.trans (Nat.min_eq_right h).symm⟩
    · rcases Nat.le_total key.stop value.extent.stop with h | h
      · exact ⟨last', hlast', hstop'.trans (Nat.max_eq_right h).symm⟩
      · exact ⟨last, hlast, hstop.trans (Nat.max_eq_left h).symm⟩

theorem Nested.extent_in (h : o.Nested w) (hw : Token.Ordered w) (ha : a.Covers w) :
    o.extent.In a := by
  obtain ⟨⟨first, hfirst, hstart⟩, last, hlast, hstop⟩ := h.ends
  exact ⟨hstart ▸ (hw.in_of_covers ha hfirst).1, hstop ▸ (hw.in_of_covers ha hlast).2⟩

/-- A node that nests among tokens of a text is a stretch of the text. -/
theorem Nested.fits {cs : List Char} (h : Nested w (.node a os)) (hw : Token.Ordered w)
    (hf : ∀ t ∈ w, t.span.Fits cs) : a.Fits cs := by
  cases h with
  | node window covers =>
    obtain ⟨first, hfirst, hstart⟩ := Option.map_eq_some_iff.mp covers.start
    obtain ⟨last, hlast, hstop⟩ := Option.map_eq_some_iff.mp covers.stop
    have hfirst := List.mem_of_mem_head? hfirst
    have hin := (hw.stretch window).in_of_covers covers hfirst
    have hff := hf first (window.subset hfirst)
    have hfl := hf last (window.subset (List.mem_of_getLast? hlast))
    exact ⟨Nat.le_trans hin.1 (Nat.le_trans hff.ordered hin.2), hstart ▸ hff.start,
      hstop ▸ hfl.stop⟩

/-- A part of a tree is inside of it. -/
theorem Nested.part (h : o.Nested w) (hw : Token.Ordered w) {i : Nat} (hp : o.part? i = some p) :
    p.Nested w ∧ p.extent.In o.extent := by
  cases h with
  | node window covers inner =>
    have hp := inner p (List.mem_of_getElem? hp)
    exact ⟨hp.mono window, hp.extent_in (hw.stretch window) covers⟩
  | shorthand name inner =>
    rcases i with _ | _ | i
    · cases hp
      exact ⟨name, Span.in_merge_left _ _⟩
    · cases hp
      exact ⟨inner, Span.in_merge_right _ _⟩
    · cases hp

theorem Nested.at? (h : o.Nested w) (hw : Token.Ordered w) {place : List Nat}
    (hp : o.at? place = some p) : p.Nested w ∧ p.extent.In o.extent := by
  induction place generalizing o with
  | nil =>
    cases hp
    exact ⟨h, .refl _⟩
  | cons i place ih =>
    obtain ⟨q, hq, hp⟩ := Option.bind_eq_some_iff.mp hp
    obtain ⟨hnested, hin⟩ := h.part hw hq
    obtain ⟨hp, hpq⟩ := ih hnested hp
    exact ⟨hp, hpq.trans hin⟩

/-- The first place is that of the key of a property that is written as its key alone, and the
second one is in its value. -/
def KeyAndValue (o : Outline) (place place' : List Nat) : Prop :=
  ∃ above below key value, o.at? above = some (.shorthand key value) ∧
    place = above ++ [0] ∧ place' = above ++ 1 :: below

theorem KeyAndValue.cons {i : Nat} {place place' : List Nat} (hp : o.part? i = some p)
    (h : p.KeyAndValue place place') : o.KeyAndValue (i :: place) (i :: place') := by
  obtain ⟨above, below, key, value, habove, rfl, rfl⟩ := h
  exact ⟨i :: above, below, key, value, by rw [at?_cons, hp]; exact habove, rfl, rfl⟩

/-- What is in one of some trees is apart from what is in another one. -/
theorem Laid.apart_of_ne (h : Laid w os) (hw : Token.Ordered w) {i j : Nat}
    {place place' : List Nat} {x y q : Outline} (hij : i ≠ j) (hx : os[i]? = some x)
    (hy : os[j]? = some y) (hp : x.at? place = some p) (hq : y.at? place' = some q) :
    p.extent.Apart q.extent := by
  have hpin := ((h.nested x (List.mem_of_getElem? hx)).at? hw hp).2
  have hqin := ((h.nested y (List.mem_of_getElem? hy)).at? hw hq).2
  refine Span.Apart.mono ?_ hpin hqin
  obtain ⟨hi, rfl⟩ := List.getElem?_eq_some_iff.mp hx
  obtain ⟨hj, rfl⟩ := List.getElem?_eq_some_iff.mp hy
  rcases Nat.lt_or_gt_of_ne hij with hlt | hlt
  · exact List.pairwise_iff_getElem.mp h.apart i j hi hj hlt
  · exact (List.pairwise_iff_getElem.mp h.apart j i hj hi hlt).symm

/-- A key has no parts. -/
theorem keyAndValue_of_shorthand {key : Span} {value x : Outline} {place : List Nat}
    (hx : (shorthand key value).part? 0 = some x) (hp : x.at? place = some p)
    (below : List Nat) : (shorthand key value).KeyAndValue (0 :: place) (1 :: below) := by
  cases hx
  cases place with
  | nil => exact ⟨[], below, key, value, by simp, rfl, rfl⟩
  | cons i place => simp [part?] at hp

/-- Nodes of which none is a part of the other are apart, but for the key of a property that is
written as its key alone, and the value that it stands for. -/
theorem Nested.apart (h : o.Nested w) (hw : Token.Ordered w) {place place' : List Nat}
    {q : Outline} (hp : o.at? place = some p) (hq : o.at? place' = some q)
    (hn : ¬place <+: place') (hn' : ¬place' <+: place) :
    p.extent.Apart q.extent ∨ o.KeyAndValue place place' ∨ o.KeyAndValue place' place := by
  induction place generalizing o place' with
  | nil => exact absurd List.nil_prefix hn
  | cons i place ih =>
    cases place' with
    | nil => exact absurd List.nil_prefix hn'
    | cons j place' =>
    obtain ⟨x, hx, hpx⟩ := Option.bind_eq_some_iff.mp hp
    obtain ⟨y, hy, hqy⟩ := Option.bind_eq_some_iff.mp hq
    by_cases hij : i = j
    · subst hij
      obtain rfl := Option.some.inj (hx.symm.trans hy)
      rw [List.cons_prefix_cons] at hn hn'
      rcases ih (h.part hw hx).1 hpx hqy (fun hc => hn ⟨rfl, hc⟩) (fun hc => hn' ⟨rfl, hc⟩)
        with happart | hkey | hkey
      · exact .inl happart
      · exact .inr (.inl (hkey.cons hx))
      · exact .inr (.inr (hkey.cons hx))
    cases h with
    | node window _ inner apart =>
      exact .inl (Laid.apart_of_ne ⟨inner, apart⟩ (hw.stretch window) hij hx hy hpx hqy)
    | shorthand =>
      rcases i with _ | _ | i <;> rcases j with _ | _ | j
      · exact absurd rfl hij
      · exact .inr (.inl (keyAndValue_of_shorthand hx hpx place'))
      · cases hy
      · exact .inr (.inr (keyAndValue_of_shorthand hy hqy place))
      · exact absurd rfl hij
      · cases hy
      all_goals cases hx

/-! ## Trees next to each other -/

theorem Laid.nil (w : List Token) : Laid w [] := ⟨by simp, .nil⟩

theorem Laid.mono (h : Laid v os) (hv : v <:+: w) : Laid w os :=
  ⟨fun o ho => (h.nested o ho).mono hv, h.apart⟩

/-- Trees among earlier tokens end before those among later ones start. -/
theorem Laid.before (hw : Token.Ordered (u ++ v)) (h : Laid u os) (h' : Laid v ps) (ho : o ∈ os)
    (hp : p ∈ ps) : o.extent.stop ≤ p.extent.start := by
  obtain ⟨-, last, hlast, hstop⟩ := (h.nested o ho).ends
  obtain ⟨⟨first, hfirst, hstart⟩, -⟩ := (h'.nested p hp).ends
  rw [← hstop, ← hstart]
  exact (List.pairwise_append.mp hw.apart).2.2 last hlast first hfirst

theorem Laid.append (hw : Token.Ordered (u ++ v)) (h : Laid u os) (h' : Laid v ps) :
    Laid (u ++ v) (os ++ ps) := by
  have hu : u <:+: u ++ v := (List.prefix_append u v).isInfix
  have hv : v <:+: u ++ v := (List.suffix_append u v).isInfix
  constructor
  · exact List.forall_mem_append.mpr ⟨(h.mono hu).nested, (h'.mono hv).nested⟩
  · exact List.pairwise_append.mpr ⟨h.apart, h'.apart, fun o ho p hp => .inl (h.before hw h' ho hp)⟩

theorem Laid.perm (h : Laid w os) (hp : os.Perm ps) : Laid w ps :=
  ⟨fun o ho => h.nested o (hp.mem_iff.mpr ho), h.apart.perm hp fun h => h.symm⟩

theorem laid_singleton : Laid w [o] ↔ o.Nested w :=
  ⟨fun h => h.nested o List.mem_cons_self,
    fun h => ⟨by simpa using h, List.pairwise_singleton _ _⟩⟩

theorem Laid.node (h : Laid w os) (ha : a.Covers w) : Nested w (.node a os) :=
  .node (List.infix_refl w) ha h.nested h.apart

/-- Below a node whose parts are laid among tokens, whatever its own span is, a node covers tokens,
and what is below it is inside of it. -/
theorem Laid.covers (h : Laid w os) (hw : Token.Ordered w) {place : List Nat} {b : Span}
    (hn : place ≠ []) (hp : (Outline.node a os).spanAt? place = some b) :
    (∃ v, v <:+: w ∧ b.Covers v) ∧
      ∀ below d, (Outline.node a os).spanAt? (place ++ below) = some d → d.In b := by
  obtain ⟨i, place, rfl⟩ := List.exists_cons_of_ne_nil hn
  obtain ⟨p, hp, hb⟩ := Option.bind_eq_some_iff.mp hp
  obtain ⟨x, hx, hpx⟩ := Option.bind_eq_some_iff.mp hp
  have hp' := ((h.nested x (List.mem_of_getElem? hx)).at? hw hpx).1
  constructor
  · cases hp' with
    | @node _ v _ _ window covers =>
      cases hb
      exact ⟨v, window, covers⟩
    | shorthand => cases hb
  · intro below d hd
    obtain ⟨q, hq, hd⟩ := Option.bind_eq_some_iff.mp hd
    rw [at?_append, hp] at hq
    have hin := (hp'.at? hw hq).2
    rwa [extent_of_span? hb, extent_of_span? hd] at hin

/-- Nodes below it of which none is above the other are apart, but for the key of a property that
is written as its key alone, and the value that it stands for. -/
theorem Laid.apart_places (h : Laid w os) (hw : Token.Ordered w) {place place' : List Nat}
    {b d : Span} (hp : (Outline.node a os).spanAt? place = some b)
    (hq : (Outline.node a os).spanAt? place' = some d) (hn : ¬place <+: place')
    (hn' : ¬place' <+: place) : b.Apart d ∨ (Outline.node a os).KeyAndValue place place' ∨
      (Outline.node a os).KeyAndValue place' place := by
  obtain ⟨i, place, rfl⟩ : ∃ i p, place = i :: p :=
    List.exists_cons_of_ne_nil fun h => hn (h ▸ List.nil_prefix)
  obtain ⟨j, place', rfl⟩ : ∃ j p, place' = j :: p :=
    List.exists_cons_of_ne_nil fun h => hn' (h ▸ List.nil_prefix)
  obtain ⟨p, hp, hb⟩ := Option.bind_eq_some_iff.mp hp
  obtain ⟨q, hq, hd⟩ := Option.bind_eq_some_iff.mp hq
  obtain ⟨x, hx, hpx⟩ := Option.bind_eq_some_iff.mp hp
  obtain ⟨y, hy, hqy⟩ := Option.bind_eq_some_iff.mp hq
  rw [← extent_of_span? hb, ← extent_of_span? hd]
  by_cases hij : i = j
  · subst hij
    obtain rfl := Option.some.inj (hx.symm.trans hy)
    rw [List.cons_prefix_cons] at hn hn'
    have hnested := h.nested x (List.mem_of_getElem? hx)
    rcases hnested.apart hw hpx hqy (fun hc => hn ⟨rfl, hc⟩) (fun hc => hn' ⟨rfl, hc⟩)
      with happart | hkey | hkey
    · exact .inl happart
    · exact .inr (.inl (hkey.cons hx))
    · exact .inr (.inr (hkey.cons hx))
  · exact .inl (h.apart_of_ne hw hij hx hy hpx hqy)

/-- Wherever the first trees can stand the second ones can, each inside of one of the first. -/
def Refines (os ps : List Outline) : Prop :=
  ∀ w, Token.Ordered w → Laid w os → Laid w ps ∧ ∀ p ∈ ps, ∃ o ∈ os, p.extent.In o.extent

namespace Refines

variable {key span : Span} {value : Outline} {os' ps' : List Outline}

theorem refl (os : List Outline) : Refines os os :=
  fun _ _ h => ⟨h, fun p hp => ⟨p, hp, .refl _⟩⟩

theorem nil (os : List Outline) : Refines os [] := fun w _ _ => ⟨.nil w, by simp⟩

theorem append (h : Refines os ps) (h' : Refines os' ps') : Refines (os ++ os') (ps ++ ps') := by
  intro w hw hl
  obtain ⟨hos, hos', hbetween⟩ := List.pairwise_append.mp hl.apart
  obtain ⟨hnested, hnested'⟩ := List.forall_mem_append.mp hl.nested
  obtain ⟨hps, hin⟩ := h w hw ⟨hnested, hos⟩
  obtain ⟨hps', hin'⟩ := h' w hw ⟨hnested', hos'⟩
  refine ⟨⟨List.forall_mem_append.mpr ⟨hps.nested, hps'.nested⟩, ?_⟩, fun p hp => ?_⟩
  · refine List.pairwise_append.mpr ⟨hps.apart, hps'.apart, fun p hp q hq => ?_⟩
    obtain ⟨o, ho, hpo⟩ := hin p hp
    obtain ⟨o', ho', hqo⟩ := hin' q hq
    exact (hbetween o ho o' ho').mono hpo hqo
  · rcases List.mem_append.mp hp with hp | hp
    · obtain ⟨o, ho, hpo⟩ := hin p hp
      exact ⟨o, List.mem_append_left _ ho, hpo⟩
    · obtain ⟨o, ho, hpo⟩ := hin' p hp
      exact ⟨o, List.mem_append_right _ ho, hpo⟩

theorem perm (h : Refines os ps) (hp : ps.Perm qs) : Refines os qs := by
  intro w hw hl
  obtain ⟨hps, hin⟩ := h w hw hl
  exact ⟨hps.perm hp, fun p hm => hin p (hp.mem_iff.mpr hm)⟩

/-- The parts of a node can stand for it. -/
theorem parts (h : Refines os ps) (span : Span) : Refines [.node span os] ps := by
  intro w hw hl
  cases laid_singleton.mp hl with
  | @node _ v _ _ window covers inner apart =>
    obtain ⟨hps, -⟩ := h v (hw.stretch window) ⟨inner, apart⟩
    refine ⟨hps.mono window, fun p hp => ⟨_, List.mem_singleton_self _, ?_⟩⟩
    exact (hps.nested p hp).extent_in (hw.stretch window) covers

theorem single (h : ∀ w, Token.Ordered w → o.Nested w → p.Nested w ∧ p.extent.In o.extent) :
    Refines [o] [p] := by
  intro w hw hl
  obtain ⟨hp, hin⟩ := h w hw (laid_singleton.mp hl)
  exact ⟨laid_singleton.mpr hp, by simpa using hin⟩

theorem node (h : Refines os ps) (span : Span) : Refines [.node span os] [.node span ps] := by
  refine single fun w hw hn => ?_
  cases hn with
  | @node _ v _ _ window covers inner apart =>
    obtain ⟨hps, -⟩ := h v (hw.stretch window) ⟨inner, apart⟩
    exact ⟨(hps.node covers).mono window, .refl _⟩

/-- A node around a node with the same span. -/
theorem around (span : Span) (os : List Outline) :
    Refines [.node span os] [.node span [.node span os]] := by
  refine single fun w hw hn => ?_
  cases hn with
  | @node _ v _ _ window covers inner apart =>
    have hinner : Nested v (.node span os) := .node (List.infix_refl v) covers inner apart
    exact ⟨((laid_singleton.mpr hinner).node covers).mono window, .refl _⟩

/-- What a key stands for can be read in another way. -/
theorem shorthand (h : Refines [o] [p]) (key : Span) :
    Refines [.shorthand key o] [.shorthand key p] := by
  refine single fun w hw hn => ?_
  cases hn with
  | shorthand name inner =>
    obtain ⟨hp, hin⟩ := h w hw (laid_singleton.mpr inner)
    have hin : p.extent.In o.extent := by simpa using hin
    exact ⟨.shorthand name (laid_singleton.mp hp), hin.merge⟩

theorem property (h : Refines [o] [p]) (key : PropertyKey) (keys : List Outline)
    (short : Bool) : Refines (outlinesOfProperty key keys o short)
      (outlinesOfProperty key keys p short) := by
  unfold outlinesOfProperty
  split
  · exact h.shorthand _
  · exact (refl keys).append h

end Refines
end Outline

/-! ## Expressions as targets -/

open Outline in
/-- The rest of a pattern is the last one that was spread; those before it are dropped. -/
theorem outlines_rest {os ps qs : List Outline} {rest : Option Pattern} {p : Pattern}
    (hp : Refines os [p.outline]) (h : Refines ps (qs ++ outlinesOfPattern? rest)) :
    Refines (os ++ ps) (qs ++ outlinesOfPattern? (some (rest.getD p))) := by
  cases rest with
  | some r => exact ((Refines.nil os).append h)
  | none =>
    rw [outlinesOfPattern?, List.append_nil] at h
    exact (hp.append h).perm List.perm_append_comm

mutual

/-- The spans of the pattern that an expression stands for nest where those of the expression
do. -/
theorem Expr.refines_toPattern : ∀ (e : Expr) {p : Pattern}, e.toPattern = .ok p →
    Outline.Refines [e.outline] [p.outline]
  | ⟨span, form⟩, _, h => form.refines_toPattern span h

theorem ExprForm.refines_toPattern (span : Span) : ∀ (f : ExprForm) {p : Pattern},
    f.toPattern span = .ok p → Outline.Refines [.node span f.outlines] [p.outline]
  | .ident _, _, h => by
    cases h
    exact .around span []
  | .member false _ _, _, h | .index false _ _, _, h => by
    cases h
    exact .around span _
  | .paren inner, _, h => (inner.refines_toPattern h).parts span
  | .assignment op target value, _, h => by
    cases op with
    | assign =>
      obtain ⟨p, hp, h⟩ := Except.bind_eq_ok.mp h
      cases h
      have ht := target.refines_toPattern hp
      exact (ht.append (.refl [value.outline])).node span
    | _ => cases h
  | .array elements, _, h => by
    obtain ⟨⟨ps, rest⟩, hr, h⟩ := Except.bind_eq_ok.mp h
    cases h
    exact (refines_arrayTargets elements hr).node span
  | .object members, _, h => by
    obtain ⟨⟨ps, rest⟩, hr, h⟩ := Except.bind_eq_ok.mp h
    cases h
    exact (refines_objectTargets span members hr).node span

theorem refines_arrayTargets : ∀ (es : List (Option Expr)) {ps : List (Option Pattern)}
    {rest : Option Pattern}, arrayTargets es = .ok (ps, rest) →
    Outline.Refines (outlinesOfElements es) (outlinesOfPositions ps ++ outlinesOfPattern? rest)
  | [], _, _, h => by
    cases h
    exact .refl []
  | none :: es, _, _, h => by
    obtain ⟨⟨ps, rest⟩, hr, h⟩ := Except.bind_eq_ok.mp h
    cases h
    have hes := refines_arrayTargets es hr
    exact hes
  | some ⟨span, form⟩ :: es, ps, rest, h => by
    by_cases hs : ∃ inner, form = .spread inner
    · obtain ⟨inner, rfl⟩ := hs
      obtain ⟨p, hp, h⟩ := Except.bind_eq_ok.mp h
      obtain ⟨⟨ps, rest⟩, hr, h⟩ := Except.bind_eq_ok.mp h
      cases h
      have hi := (inner.refines_toPattern hp).parts span
      exact outlines_rest hi (refines_arrayTargets es hr)
    · have hn : ∀ inner, form = .spread inner → False := fun inner h => hs ⟨inner, h⟩
      rw [arrayTargets.eq_4 _ _ _ hn] at h
      obtain ⟨p, hp, h⟩ := Except.bind_eq_ok.mp h
      obtain ⟨⟨ps, rest⟩, hr, h⟩ := Except.bind_eq_ok.mp h
      cases h
      exact (form.refines_toPattern span hp).append (refines_arrayTargets es hr)

theorem refines_objectTargets (span : Span) : ∀ (ms : List ObjectMember)
    {ps : List PatternProperty} {rest : Option Pattern}, objectTargets span ms = .ok (ps, rest) →
    Outline.Refines (outlinesOfMembers ms) (outlinesOfProperties ps ++ outlinesOfPattern? rest)
  | [], _, _, h => by
    cases h
    exact .refl []
  | .property key value shorthand :: ms, _, _, h => by
    obtain ⟨p, hp, h⟩ := Except.bind_eq_ok.mp h
    obtain ⟨⟨ps, rest⟩, hr, h⟩ := Except.bind_eq_ok.mp h
    cases h
    have hv := (value.refines_toPattern hp).property key key.outlines shorthand
    have hms := refines_objectTargets span ms hr
    simpa only [outlinesOfMembers, ObjectMember.outlines, outlinesOfProperties,
      PatternProperty.outlines, List.append_assoc] using hv.append hms
  | .spread value :: ms, _, _, h => by
    obtain ⟨p, hp, h⟩ := Except.bind_eq_ok.mp h
    obtain ⟨⟨ps, rest⟩, hr, h⟩ := Except.bind_eq_ok.mp h
    cases h
    exact outlines_rest (value.refines_toPattern hp) (refines_objectTargets span ms hr)

end

end ModuleBundler
