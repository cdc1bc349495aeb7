import ModuleBundler.Analysis.Module
import ModuleBundler.Proofs.Token.Edits

/-! A source text with answers in place of its arguments and without its first line, if that
names an interpreter: its edits and its tokens. -/
namespace ModuleBundler
open ModuleBundler.Text

variable {a : Answers}

theorem Near.isPrefixOf {n : Nat} {cs cs' l : List Char} (h : Near n cs cs') (hl : '(' ∉ l) :
    l.isPrefixOf cs' = l.isPrefixOf cs := by
  rcases h with rfl | ⟨w, r, r', -, rfl, rfl⟩
  · rfl
  · rw [isPrefixOf_before hl, isPrefixOf_before hl]

/-- Only one line is skipped. -/
theorem isPrefixOf_drop_hashbang (cs : List Char) :
    ['#', '!'].isPrefixOf (cs.drop (hashbang cs).length) = false := by
  unfold hashbang
  split
  · have hw : (cs.takeWhile (· != '\n') ++ cs.dropWhile (· != '\n')).drop
        (cs.takeWhile (· != '\n')).length = cs.dropWhile (· != '\n') := List.drop_left
    rw [List.takeWhile_append_dropWhile] at hw
    have hn := List.head?_dropWhile_not (· != '\n') cs
    rw [hw]
    generalize cs.dropWhile (· != '\n') = r at hn
    cases r with
    | nil => rfl
    | cons c r =>
      have hc : c = '\n' := by simpa using hn
      rw [hc]
      rfl
  · next h => exact Bool.eq_false_iff.mpr h

/-- Where the tokens of a text begin. -/
def Scanner.start (cs : List Char) : Scanner := ⟨byteSize (hashbang cs), none, []⟩

/-- A source text with quoted answers, after its first line if that is skipped. -/
def Answers.rewrite (a : Answers) (source : String) : String :=
  let cs := source.toList
  String.ofList ((Scanner.start cs).answered a (cs.drop (hashbang cs).length))

theorem tokenize_eq (source : String) : tokenize source =
    (Scanner.start source.toList).tokens (source.toList.drop (hashbang source.toList).length) := rfl

/-- Only arguments among the tokens of a text have answers; the first token is none. -/
def Answers.ForArguments (a : Answers) (source : String) : Prop :=
  ArgumentsOnly a (Cursor.endMark []) (tokenize source)

/-- The first token is no argument, whatever stands for the one before it. -/
theorem ArgumentsOnly.first {previous : Token} {ts : List Token} (h : ArgumentsOnly a previous ts)
    (hp : previous.kind ≠ .punct .lParen) (previous' : Token) : ArgumentsOnly a previous' ts := by
  cases ts with
  | nil => trivial
  | cons t ts =>
    refine ⟨fun hs => ?_, h.2⟩
    have ha := h.1 hs
    simp only [Token.isArgument, Bool.and_eq_true, beq_iff_eq] at ha
    exact absurd ha.1 hp

theorem tokenize_cons (source : String) : ∃ t ts, tokenize source = t :: ts := by
  have h := Scanner.getLast?_tokens (Scanner.start source.toList)
    (source.toList.drop (hashbang source.toList).length)
  rw [← tokenize_eq] at h
  cases ht : tokenize source with
  | nil => rw [ht] at h; cases h
  | cons t ts => exact ⟨t, ts, rfl⟩

theorem ofTokens_tokenize {source : String} {t : Token} {ts : List Token}
    (h : tokenize source = t :: ts) : Cursor.ofTokens (tokenize source) = ⟨t, t, ts⟩ := by
  have hl := Scanner.getLast?_tokens (Scanner.start source.toList)
    (source.toList.drop (hashbang source.toList).length)
  rw [← tokenize_eq, h] at hl
  rw [h, Cursor.ofTokens, if_pos hl]

theorem hashbang_rewrite {source : String} (h : a.ForArguments source) :
    hashbang (a.rewrite source).toList = [] := by
  have hp : (Cursor.endMark []).kind ≠ .punct .lParen := by rintro ⟨⟩
  have hn := Scanner.near_answered (s := Scanner.start source.toList) hp h
  rw [hashbang, Answers.rewrite, String.toList_ofList, if_neg]
  rw [hn.isPrefixOf (by decide), isPrefixOf_drop_hashbang]
  exact Bool.false_ne_true

/-- The tokens of the new text are twins of those of the old one. -/
theorem twin_rewrite {source : String} (h : a.ForArguments source) :
    (Cursor.ofTokens (tokenize source)).Twin a (Cursor.ofTokens (tokenize (a.rewrite source))) := by
  have hr := hashbang_rewrite h
  obtain ⟨t, ts, ht⟩ := tokenize_cons source
  obtain ⟨t', ts', ht'⟩ := tokenize_cons (a.rewrite source)
  have hk : (Scanner.start source.toList).Like (Scanner.start (a.rewrite source).toList) :=
    ⟨rfl, rfl⟩
  have hw := Scanner.twins_answered hk (h.first (by rintro ⟨⟩) t)
  have hd : (Scanner.start source.toList).answered a
      (source.toList.drop (hashbang source.toList).length)
      = (a.rewrite source).toList.drop (hashbang (a.rewrite source).toList).length := by
    rw [hr, List.length_nil, List.drop_zero, Answers.rewrite, String.toList_ofList]
  rw [hd, ← tokenize_eq, ← tokenize_eq, ht, ht'] at hw
  have hl := Scanner.getLast?_tokens (Scanner.start source.toList)
    (source.toList.drop (hashbang source.toList).length)
  rw [← tokenize_eq, ht] at hl
  rw [ofTokens_tokenize ht, ofTokens_tokenize ht']
  exact ⟨hw, hl⟩

theorem prefix_hashbang (cs : List Char) : hashbang cs <+: cs := by
  unfold hashbang
  split
  · exact List.takeWhile_prefix _
  · exact List.nil_prefix

/-- The edits of the answers, and the one that removes a skipped line, make the new text. -/
theorem applyFrom_rewrite {source : String} (h : a.ForArguments source) (ids : List String) :
    Edit.applyFrom source.toList 0 none
        ((Analysis.hashbangReplacement source.toList).map (·.edit ids) ++ a.edits (tokenize source))
      = .ok (a.rewrite source).toList := by
  have hw := List.prefix_iff_eq_append.mp (prefix_hashbang source.toList)
  have hr := fun b => Edit.applyFrom_answers (s := Scanner.start source.toList) (b := b)
    (p := hashbang source.toList) (q := []) (by simp [Scanner.start]) h
  rw [List.nil_append, hw, List.nil_append, ← tokenize_eq] at hr
  rw [Answers.rewrite, String.toList_ofList]
  unfold Analysis.hashbangReplacement
  split
  · have hl : byteSize (hashbang source.toList) ≤ byteSize source.toList := by
      have hb := congrArg byteSize hw
      rw [byteSize_append] at hb
      omega
    have hc := Edit.applyFrom_cons (b := none) (n := 0)
      (e := ⟨⟨0, byteSize (hashbang source.toList)⟩, ""⟩) (Nat.zero_le _) hl (hr _)
    simpa [slice, Replacement.edit] using hc
  · next hs =>
    have he : hashbang source.toList = [] := by
      rw [hashbang, if_neg]
      intro hp
      obtain ⟨v, hv⟩ := List.isPrefixOf_iff_prefix.mp hp
      exact hs v hv.symm
    have hn := hr none
    rw [he] at hn ⊢
    exact hn

end ModuleBundler
