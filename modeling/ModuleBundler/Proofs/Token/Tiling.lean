import ModuleBundler.Proofs.Grammar.Place
import ModuleBundler.Proofs.Token.Spelling

/-! The tokens of a source text tile it: between them stand only blanks and whole comments. -/
namespace ModuleBundler
open ModuleBundler.Text

/-- Blanks and whole comments, with the text that comes after them. -/
inductive Filler (after : List Char) : List Char → Prop
  | nil : Filler after []
  | blank {c : Char} {cs : List Char} (blank : isBlank c = true) (tail : Filler after cs) :
    Filler after (c :: cs)
  /-- A comment goes on to the end of its line. -/
  | line {text cs : List Char} (inside : ∀ c ∈ text, isLineTerminator c = false)
    (ends : ∀ c, (cs ++ after).head? = some c → isLineTerminator c = true)
    (tail : Filler after cs) : Filler after ('/' :: '/' :: (text ++ cs))
  /-- A comment goes on to the first mark that closes it. -/
  | block {text cs : List Char} (inside : ¬ ['*', '/'] <:+: text) (tail : Filler after cs) :
    Filler after ('/' :: '*' :: (text ++ '*' :: '/' :: cs))

/-- What is skipped at the start of a text: its first line, if that names an interpreter. -/
inductive FirstLine : List Char → List Char → Prop
  | none {cs : List Char} (plain : ¬ ['#', '!'] <+: cs) : FirstLine cs []
  | whole {cs : List Char} (marked : ['#', '!'] <+: cs) (inside : '\n' ∉ cs) : FirstLine cs cs
  | line {line rest : List Char} (marked : ['#', '!'] <+: line) (inside : '\n' ∉ line) :
    FirstLine (line ++ '\n' :: rest) line

/-- From an offset on there are only blanks and whole comments before a token, which says whether
a line ends among them. -/
structure Token.Follows (cs : List Char) (offset : Nat) (t : Token) : Prop where
  filler : Filler (dropBytes t.span.start cs) (slice offset t.span.start cs)
  newline : t.kind ≠ .error →
    (t.newlineBefore = true ↔ ∃ c ∈ slice offset t.span.start cs, isLineTerminator c = true)

namespace Lexeme

theorem blockComment?_some {cs text : List Char} (h : blockComment? cs = some text) :
    ∃ body, text = body ++ ['*', '/'] ∧ ¬ ['*', '/'] <:+: body := by
  fun_induction blockComment? cs generalizing text with
  | case1 cs =>
    obtain rfl := Option.some.inj h
    exact ⟨[], rfl, by simp⟩
  | case2 c cs hc ih =>
    obtain ⟨u, hu, rfl⟩ := Option.map_eq_some_iff.mp h
    obtain ⟨body, rfl, hb⟩ := ih hu
    refine ⟨c :: body, rfl, fun hi => ?_⟩
    rcases List.infix_cons_iff.mp hi with hp | hi
    · obtain ⟨rfl, ⟨v, rfl⟩⟩ := List.cons_prefix_cons.mp hp
      obtain ⟨⟨w, rfl⟩, -⟩ := prefix_blockComment? hu
      exact hc _ rfl rfl
    · exact hb hi
  | case3 => cases h

theorem drop_opening (c d : Char) (cs text u : List Char) :
    (c :: d :: cs).drop (c :: d :: (text ++ u)).length = (cs.drop text.length).drop u.length := by
  simp [List.drop_drop]

theorem filler_gap (cs : List Char) : Filler (cs.drop (gap cs).length) (gap cs) := by
  fun_induction gap cs with
  | case1 => exact .nil
  | case2 cs text ih =>
    have hr : gap (cs.drop text.length)
        ++ (cs.drop text.length).drop (gap (cs.drop text.length)).length
        = cs.dropWhile fun c => !isLineTerminator c := by
      have hw : (text ++ cs.dropWhile fun c => !isLineTerminator c).drop text.length
          = cs.dropWhile fun c => !isLineTerminator c := List.drop_left
      rw [List.prefix_iff_eq_append.mp (prefix_gap _), ← hw]
      simp only [text, lineComment, List.takeWhile_append_dropWhile]
    rw [drop_opening]
    refine .line (fun c hc => ?_) (fun c hc => ?_) ih
    · simpa using List.all_eq_true.mp List.all_takeWhile c hc
    · rw [hr] at hc
      have hn := List.head?_dropWhile_not (fun c => !isLineTerminator c) cs
      rw [hc] at hn
      simpa using hn
  | case3 cs text h ih =>
    obtain ⟨body, rfl, hb⟩ := blockComment?_some h
    rw [drop_opening]
    simpa using Filler.block hb ih
  | case4 cs h => exact .nil
  | case5 c cs h₁ h₂ hc ih => exact .blank hc ih
  | case6 c cs h₁ h₂ hc => exact .nil

end Lexeme

theorem firstLine_hashbang (cs : List Char) : FirstLine cs (hashbang cs) := by
  unfold hashbang
  split
  · next h =>
    have hp := List.isPrefixOf_iff_prefix.mp h
    have hi : '\n' ∉ cs.takeWhile (· != '\n') := fun hm => by
      simpa using List.all_eq_true.mp List.all_takeWhile '\n' hm
    have hm : ['#', '!'] <+: cs.takeWhile (· != '\n') := by
      obtain ⟨v, rfl⟩ := hp
      simp
    have hw : cs.takeWhile (· != '\n') ++ cs.dropWhile (· != '\n') = cs :=
      List.takeWhile_append_dropWhile
    have hn := List.head?_dropWhile_not (· != '\n') cs
    generalize cs.takeWhile (· != '\n') = line at hi hm hw
    generalize cs.dropWhile (· != '\n') = rest at hw hn
    subst hw
    cases rest with
    | nil =>
      rw [List.append_nil]
      exact .whole hm hi
    | cons c rest =>
      obtain rfl : c = '\n' := by simpa using hn
      exact .line hm hi
  · next h => exact .none fun hp => h (List.isPrefixOf_iff_prefix.mpr hp)

theorem Token.follows_append {p gap rest : List Char} {t : Token} (hf : Filler rest gap)
    (hs : t.span.start = byteSize p + byteSize gap)
    (hn : t.kind ≠ .error → t.newlineBefore = gap.any isLineTerminator) :
    t.Follows (p ++ (gap ++ rest)) (byteSize p) := by
  have hslice : slice (byteSize p) t.span.start (p ++ (gap ++ rest)) = gap := by
    rw [hs, slice_append]
  have hdrop : dropBytes t.span.start (p ++ (gap ++ rest)) = rest := by
    rw [hs, ← byteSize_append, ← List.append_assoc, dropBytes_append]
  constructor
  · rwa [hslice, hdrop]
  · intro hk
    rw [hslice, hn hk, List.any_eq_true]

namespace Scanner

/-- The text of a token, and the text that is left after it. -/
theorem offset_after {s : Scanner} {p : List Char} (hs : s.offset = byteSize p)
    (gap : List Char) (c : Char) (rest : List Char) :
    ∃ text, p ++ (gap ++ c :: rest) = text ++ rest.drop ((s.lexeme c rest).size - 1)
      ∧ (s.after (s.token gap c rest) c).offset = byteSize text := by
  refine ⟨p ++ (gap ++ c :: rest.take ((s.lexeme c rest).size - 1)), ?_, ?_⟩
  · simp
  · simp [after, token, hs, Nat.add_assoc]

/-- Before each token there are only blanks and whole comments. -/
theorem follows_tokens (s : Scanner) (cs : List Char) :
    ∀ p, s.offset = byteSize p → ∀ us t vs, s.tokens cs = us ++ t :: vs →
      t.Follows (p ++ cs) ((us.getLast?.map (·.span.stop)).getD s.offset) := by
  induction s, cs using text_induction with
  | nil s cs h =>
    intro p hs us t vs ht
    rw [tokens_nil h] at ht
    obtain ⟨rfl, hu⟩ | ⟨us, rfl, hu⟩ := List.cons_eq_append_iff.mp ht
    · obtain ⟨rfl, -⟩ := List.cons.inj hu
      have hf := Lexeme.filler_gap cs
      rw [h, List.drop_length] at hf
      have hr := Token.follows_append (p := p) (t := ⟨.eof, ⟨s.offset + byteSize cs,
        s.offset + byteSize cs⟩, "", cs.any isLineTerminator⟩) hf (by rw [hs]) fun _ => rfl
      rw [List.append_nil] at hr
      rwa [← hs] at hr
    · cases us <;> cases hu
  | cons s gap c rest h ih =>
    intro p hs us t vs ht
    rw [tokens_cons h] at ht
    obtain ⟨rfl, hu⟩ | ⟨us, rfl, hu⟩ := List.cons_eq_append_iff.mp ht
    · obtain ⟨rfl, -⟩ := List.cons.inj hu
      have hf := Lexeme.filler_gap (gap ++ c :: rest)
      rw [h, List.drop_left] at hf
      have hr := Token.follows_append (p := p) (t := s.token gap c rest) hf (by rw [← hs]; rfl)
        newlineIn_of_kind
      rwa [← hs] at hr
    · obtain ⟨q, hq, ho⟩ := offset_after hs gap c rest
      have hr := ih q ho us t vs hu
      rw [← hq] at hr
      rw [List.getLast?_cons]
      cases hl : us.getLast? <;> rw [hl] at hr <;> exact hr

/-- The end mark is the last token, at the end of the text, and no other is empty. -/
theorem tokens_concat (s : Scanner) (cs : List Char) :
    ∃ ts last, s.tokens cs = ts ++ [last]
      ∧ (∀ t ∈ ts, t.kind ≠ .eof ∧ t.span.start < t.span.stop) ∧ last.kind = .eof
      ∧ last.span = ⟨s.offset + byteSize cs, s.offset + byteSize cs⟩ := by
  induction s, cs using text_induction with
  | nil s cs h => exact ⟨[], _, by rw [tokens_nil h]; rfl, by simp, rfl, rfl⟩
  | cons s gap c rest h ih =>
    obtain ⟨ts, last, ht, hts, hk, hl⟩ := ih
    have hb : (s.after (s.token gap c rest) c).offset
        + byteSize (rest.drop ((s.lexeme c rest).size - 1))
        = s.offset + byteSize (gap ++ c :: rest) := by
      have hr := congrArg byteSize (List.take_append_drop ((s.lexeme c rest).size - 1) rest)
      simp only [byteSize_append] at hr
      simp only [after, token, byteSize_append, byteSize_cons]
      omega
    refine ⟨s.token gap c rest :: ts, last, by rw [tokens_cons h, ht]; rfl, ?_, hk, hb ▸ hl⟩
    refine List.forall_mem_cons.mpr ⟨⟨s.lexeme_ne_eof c rest, ?_⟩, hts⟩
    exact (s.start_lt_stop gap c rest).2

end Scanner

/-- The tokens of a source text tile it. They are stretches of the text, one after the other; none
is empty but the last one, which marks the end of the text. Before the first one, after the line
that is skipped, and between each one and the next there are only blanks and whole comments, and
the next one is marked if a line ends among these. -/
theorem tokenize_tiles (source : String) :
    ∃ line ts last, FirstLine source.toList line ∧ tokenize source = ts ++ [last]
      ∧ (∀ t ∈ tokenize source, t.span.Fits source.toList)
      ∧ (tokenize source).Pairwise (fun t u => t.span.stop ≤ u.span.start)
      ∧ (∀ t ∈ ts, t.kind ≠ .eof ∧ t.span.start < t.span.stop)
      ∧ last.kind = .eof ∧ last.span = ⟨byteSize source.toList, byteSize source.toList⟩
      ∧ ∀ us t vs, tokenize source = us ++ t :: vs →
          t.Follows source.toList ((us.getLast?.map (·.span.stop)).getD (byteSize line)) := by
  let cs := source.toList
  have hw : hashbang cs ++ cs.drop (hashbang cs).length = cs :=
    List.prefix_iff_eq_append.mp (prefix_hashbang cs)
  obtain ⟨hfit, hord⟩ := (Scanner.start cs).tokens_placed (cs.drop (hashbang cs).length)
    (hashbang cs) rfl
  obtain ⟨ts, last, ht, hts, hk, hl⟩ := (Scanner.start cs).tokens_concat
    (cs.drop (hashbang cs).length)
  have hfollows := (Scanner.start cs).follows_tokens (cs.drop (hashbang cs).length)
    (hashbang cs) rfl
  have hb : (Scanner.start cs).offset + byteSize (cs.drop (hashbang cs).length) = byteSize cs := by
    have hb := congrArg byteSize hw
    rwa [byteSize_append] at hb
  rw [hw, ← tokenize_eq] at hfit hfollows
  rw [← tokenize_eq] at hord ht
  rw [hb] at hl
  exact ⟨hashbang cs, ts, last, firstLine_hashbang cs, ht, fun t h => (hfit t h).1, hord, hts, hk,
    hl, hfollows⟩

/-- A line ends before the first token, after the text that is skipped, and one in a comment. -/
example : (tokenize "#!node\na /* \n */ b // c").map Token.newlineBefore = [true, true, false] := by
  decide +kernel

end ModuleBundler
