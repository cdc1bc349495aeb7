import ModuleBundler.Proofs.Bundle.Chunk

/-! The names of the files of a pass: chunks share one exactly if there are several of them and the
template has no place for their names. -/
namespace ModuleBundler
open ModuleBundler.Graph

namespace Text
variable {old cs : List Char}

theorem replaceChars_append (hne : old ≠ []) (new cs : List Char) :
    replaceChars old new (old ++ cs) = new ++ replaceChars old new cs := by
  obtain ⟨c, rest, rfl⟩ := List.exists_cons_of_ne_nil hne
  rw [List.cons_append, replaceChars, ← List.cons_append,
    if_pos (List.isPrefixOf_iff_prefix.mpr (List.prefix_append _ _))]
  simp

theorem replaceChars_cons {c : Char} (h : ¬ old <+: c :: cs) (new : List Char) :
    replaceChars old new (c :: cs) = c :: replaceChars old new cs := by
  rw [replaceChars, if_neg (by rwa [List.isPrefixOf_iff_prefix])]

/-- Where the first occurrence stands does not depend on what is put in its place. -/
theorem replaceChars_of_infix (hne : old ≠ []) (h : old <:+: cs) :
    ∃ before after, cs = before ++ (old ++ after) ∧
      ∀ new, replaceChars old new cs = before ++ (new ++ replaceChars old new after) := by
  induction cs with
  | nil => exact absurd (List.infix_nil.mp h) hne
  | cons c cs ih =>
    by_cases hp : old <+: c :: cs
    · obtain ⟨after, hafter⟩ := hp
      refine ⟨[], after, hafter.symm, fun new => ?_⟩
      rw [← hafter, replaceChars_append hne, List.nil_append]
    · obtain ⟨before, after, hcs, hr⟩ := ih ((List.infix_cons_iff.mp h).resolve_left hp)
      refine ⟨c :: before, after, by rw [hcs]; rfl, fun new => ?_⟩
      rw [replaceChars_cons hp, hr]
      rfl

theorem length_replaceChars_le {a b : List Char} (h : a.length ≤ b.length) (old cs : List Char) :
    (replaceChars old a cs).length ≤ (replaceChars old b cs).length := by
  fun_induction replaceChars old a cs with
  | case1 => simp
  | case2 c cs hp ih =>
    rw [replaceChars, if_pos hp, List.length_append, List.length_append]
    exact Nat.add_le_add h ih
  | case3 c cs hp ih =>
    rw [replaceChars, if_neg hp, List.length_cons, List.length_cons]
    exact Nat.succ_le_succ ih

/-- Different texts in the places of a text that occurs give different results: texts of one
length differ at the first place, and of others the longer one makes the longer result. -/
theorem replaceChars_injective (hne : old ≠ []) (h : old <:+: cs) :
    Function.Injective fun new => replaceChars old new cs := by
  intro a b hab
  obtain ⟨before, after, -, hr⟩ := replaceChars_of_infix hne h
  simp only [hr] at hab
  have hsame : a ++ replaceChars old a after = b ++ replaceChars old b after :=
    List.append_cancel_left hab
  have hsizes := congrArg List.length hsame
  rw [List.length_append, List.length_append] at hsizes
  have hlength : a.length = b.length := by
    rcases Nat.le_total a.length b.length with hle | hle
    · have := length_replaceChars_le hle old after
      omega
    · have := length_replaceChars_le hle old after
      omega
  exact (List.append_inj hsame hlength).1

end Text

/-- Of names that are all the same, the second one is repeated. -/
theorem Entry.repeated?_const {α : Type} (name : String) (l : List α) :
    repeated? [] (l.map fun _ => name) = if 2 ≤ l.length then some name else none := by
  match l with
  | [] => rfl
  | [_] => rfl
  | _ :: _ :: _ => simp [repeated?]

namespace Options
variable {o : Options}

/-- The template has a place for the name of an entry point. -/
def HasPlaceholder (o : Options) : Prop := "[name]".toList <:+: o.filename.toList

instance (o : Options) : Decidable o.HasPlaceholder :=
  inferInstanceAs (Decidable ("[name]".toList <:+: o.filename.toList))

theorem filenameFor_eq (o : Options) (name : String) : o.filenameFor name =
    String.ofList (Text.replaceChars "[name]".toList name.toList o.filename.toList) := by
  rw [filenameFor, Text.replaceAll, if_neg (by decide)]

theorem filenameFor_injective (h : o.HasPlaceholder) : Function.Injective o.filenameFor := by
  intro a b hab
  rw [filenameFor_eq, filenameFor_eq, String.ofList_inj] at hab
  exact String.toList_inj.mp (Text.replaceChars_injective (by decide) h hab)

theorem filenameFor_of_not (h : ¬ o.HasPlaceholder) (name : String) :
    o.filenameFor name = o.filename := by
  rw [filenameFor_eq, Text.replaceChars_of_not_infix h, String.ofList_toList]

theorem hasPlaceholder_iff (o : Options) :
    o.HasPlaceholder ↔ ∀ a b, a ≠ b → o.filenameFor a ≠ o.filenameFor b := by
  refine ⟨fun h a b hab he => hab (filenameFor_injective h he), fun h => ?_⟩
  by_contra hnot
  exact h "a" "b" (by decide) (by rw [filenameFor_of_not hnot, filenameFor_of_not hnot])

/-- The filenames of entry points with names of their own: without a place for the names, the
second one is the template once more. -/
theorem repeated?_filenames (o : Options) {points : List (String × Path)}
    (hn : (points.map (·.1)).Nodup) :
    Entry.repeated? [] (points.map fun point => o.filenameFor point.1)
      = if 2 ≤ points.length ∧ ¬ o.HasPlaceholder then some o.filename else none := by
  by_cases hplace : o.HasPlaceholder
  · have hmap := hn.map (filenameFor_injective hplace)
    rw [List.map_map] at hmap
    rw [if_neg fun h => h.2 hplace]
    exact Entry.repeated?_eq_none_iff.mpr ⟨hmap, by simp⟩
  · have hsame : (points.map fun point => o.filenameFor point.1)
        = points.map fun _ => o.filename :=
      List.map_congr_left fun point _ => filenameFor_of_not hplace point.1
    rw [hsame, Entry.repeated?_const]
    simp [hplace]

end Options

namespace Compilation
variable {o : Options} {p : Project} {t : FileTree} {g after : Graph} {cs : List Chunk}
  {points : List (String × Path)} {file : Path → Path}

theorem chunks_concat {middle : Graph} {name id : String} {entry path : Path}
    (h : chunks o p g points = (middle, .ok cs))
    (hentry : p.resolver.resolveEntry o.context entry = .ok path)
    (hadd : middle.addEntry p name path = (after, .ok id)) :
    chunks o p g (points ++ [(name, entry)]) = (after, .ok (cs ++
      [⟨name, id, (after.reached name).map (·.id), o.filenameFor name⟩])) := by
  induction points generalizing g cs with
  | nil =>
    cases h
    exact chunks_cons_ok.mpr ⟨path, after, id, [], hentry, hadd, rfl, rfl⟩
  | cons point points ih =>
    obtain ⟨path', next, id', others, hentry', hadd', hrest, rfl⟩ := chunks_cons_ok.mp h
    exact chunks_cons_ok.mpr ⟨path', next, id', _, hentry', hadd', ih hrest, rfl⟩

/-- The entry points mean files, and the modules of all of these can be built. -/
structure Enters (o : Options) (t : FileTree) (file : Path → Path) (g : Graph) : Prop where
  resolved : ∀ point ∈ o.entry.points,
    (project o t).resolver.resolveEntry o.context point.2 = .ok (file point.2)
  built : Built (project o t) (o.entry.points.map fun point => (point.1, file point.2)) g

/-- There is a chunk for each entry point whose modules are built. -/
theorem chunks_of_built
    (hr : ∀ point ∈ points, p.resolver.resolveEntry o.context point.2 = .ok (file point.2))
    (hb : Built p (points.map fun point => (point.1, file point.2)) g) :
    ∃ cs, chunks o p .empty points = (g, .ok cs) ∧
      cs.map (·.filename) = points.map fun point => o.filenameFor point.1 := by
  generalize hpoints : (points.map fun point => (point.1, file point.2)) = built at hb
  induction hb generalizing points with
  | nothing =>
    obtain rfl := List.map_eq_nil_iff.mp hpoints
    exact ⟨[], rfl, rfl⟩
  | add before added ih =>
    obtain ⟨earlier, last, rfl, hearlier, hlast⟩ := List.map_eq_append_iff.mp hpoints
    obtain ⟨⟨name, entry⟩, rfl, hpoint⟩ := List.map_eq_singleton_iff.mp hlast
    cases hpoint
    obtain ⟨cs, hcs, hnames⟩ := ih (fun point hp => hr point (by simp [hp])) hearlier
    exact ⟨_, chunks_concat hcs (hr (name, entry) (by simp)) added, by simp [hnames]⟩

/-- The entry module of a chunk is there. -/
theorem chunks_found (hn : (points.map (·.1)).Nodup)
    (h : chunks o p .empty points = (g, .ok cs)) : ∀ c ∈ cs, ∃ m, g.find? c.entry = some m := by
  intro c hc
  obtain ⟨built, -, hg, -, hshows⟩ := chunks_shows empty_attributed (by simpa using hn) h
  obtain ⟨path, hpath, hentry⟩ := (hshows c hc).entered
  obtain ⟨m, hm, hid⟩ := hg.entered (c.name, path) hpath
  exact ⟨m, hid.trans hentry.symm ▸ hg.indexed.find?_of_mem hm⟩

/-- Chunks whose entry modules are there are rendered, up to the first that has a filename which
came before. -/
theorem assets_of_found (h : ∀ c ∈ cs, ∃ m, g.find? c.entry = some m) (before : List String) :
    match Entry.repeated? before (cs.map (·.filename)) with
    | some filename => assets g before cs = .error (.config (.duplicateFilename filename))
    | none => ∃ as, assets g before cs = .ok as := by
  induction cs generalizing before with
  | nil => exact ⟨[], rfl⟩
  | cons c cs ih =>
    obtain ⟨⟨m, hm⟩, hcs⟩ := List.forall_mem_cons.mp h
    rw [List.map_cons, Entry.repeated?, assets]
    by_cases hmem : c.filename ∈ before
    · rw [if_pos hmem, if_pos hmem]
    · rw [if_neg hmem, if_neg hmem, hm]
      have hrest := ih hcs (c.filename :: before)
      dsimp only
      split at hrest
      · rw [hrest]
        rfl
      · obtain ⟨as, has⟩ := hrest
        exact ⟨_, by rw [has]; rfl⟩

/-- If the modules of all entry points can be built, nothing but a repeated filename is left to
make a pass fail. -/
theorem build_of_enters (hv : o.entry.validate = .ok ()) (h : Enters o t file g) :
    match Entry.repeated? [] (o.entry.points.map fun point => o.filenameFor point.1) with
    | some filename => (build o t).2 = .error (.config (.duplicateFilename filename))
    | none => ∃ s, (build o t).2 = .ok s := by
  obtain ⟨-, hn⟩ := Entry.validate_eq_ok_iff.mp hv
  obtain ⟨cs, hcs, hnames⟩ := chunks_of_built h.resolved h.built
  have hassets := assets_of_found (chunks_found hn hcs) []
  rw [hnames] at hassets
  split at hassets
  · simp only [build, hv, hcs, hassets]
  · obtain ⟨as, has⟩ := hassets
    exact ⟨⟨cs, g.modules, sortAssets as, g.touched⟩, by simp only [build, hv, hcs, has]⟩

/-- If the modules of all entry points can be built, a pass fails because of a filename exactly if
there are several entry points and the template has no place for their names; the filename is then
the template. With a place for them, different names make different filenames, whatever the names
and the rest of the template are. -/
theorem filenames_collide_iff (hv : o.entry.validate = .ok ()) (h : Enters o t file g) :
    (∀ filename, (build o t).2 = .error (.config (.duplicateFilename filename)) ↔
      2 ≤ o.entry.points.length ∧ ¬ o.HasPlaceholder ∧ filename = o.filename) ∧
    ((∃ s, (build o t).2 = .ok s) ↔ o.entry.points.length < 2 ∨ o.HasPlaceholder) ∧
    (o.HasPlaceholder ↔ ∀ a b, a ≠ b → o.filenameFor a ≠ o.filenameFor b) := by
  have hbuild := build_of_enters hv h
  rw [o.repeated?_filenames (Entry.validate_eq_ok_iff.mp hv).2] at hbuild
  by_cases hsame : 2 ≤ o.entry.points.length ∧ ¬ o.HasPlaceholder
  · rw [if_pos hsame] at hbuild
    refine ⟨fun filename => ?_, ?_, o.hasPlaceholder_iff⟩
    · simp only [hbuild, hsame, not_false_eq_true, true_and, Except.error.injEq,
        BundleError.config.injEq, ConfigError.duplicateFilename.injEq, eq_comm]
    · constructor
      · rintro ⟨s, hs⟩
        rw [hbuild] at hs
        cases hs
      · rintro (hlt | hplace)
        · exact absurd hlt (Nat.not_lt.mpr hsame.1)
        · exact absurd hplace hsame.2
  · rw [if_neg hsame] at hbuild
    obtain ⟨s, hs⟩ := hbuild
    have hor : o.entry.points.length < 2 ∨ o.HasPlaceholder := by
      by_cases hplace : o.HasPlaceholder
      · exact .inr hplace
      · exact .inl (Nat.lt_of_not_le fun hle => hsame ⟨hle, hplace⟩)
    refine ⟨fun filename => ?_, ⟨fun _ => hor, fun _ => ⟨s, hs⟩⟩, o.hasPlaceholder_iff⟩
    rw [hs, ← and_assoc]
    exact ⟨by rintro ⟨⟩, fun h => absurd h.1 hsame⟩

/-- Two entry points whose names contain the text that stands for a name. -/
def bracketed (filename : String) : Options where
  packageMain _ := .ok none
  context := ⟨"/"⟩
  entry := .named [("[name]", ⟨"./a.js"⟩), ("[name] [name]", ⟨"./b.js"⟩)]
  filename := filename

theorem filenames_collide_of_bracketed : ∃ file g,
    (∀ filename, (bracketed filename).entry.validate = .ok () ∧
      Enters (bracketed filename) pair.resolver.tree file g) ∧
    (build (bracketed "out.js") pair.resolver.tree).2
      = .error (.config (.duplicateFilename "out.js")) ∧
    ∃ s, (build (bracketed "[name] [name].js") pair.resolver.tree).2 = .ok s := by
  let file : Path → Path := fun entry => if entry = ⟨"./a.js"⟩ then ⟨"/a.js"⟩ else ⟨"/b.js"⟩
  let first := Graph.empty.addEntry pair "[name]" ⟨"/a.js"⟩
  let second := first.1.addEntry pair "[name] [name]" ⟨"/b.js"⟩
  have hfirst : first.2 = .ok "./a.js" := by decide +kernel
  have hsecond : second.2 = .ok "./b.js" := by decide +kernel
  have hbuilt : Built pair [("[name]", ⟨"/a.js"⟩), ("[name] [name]", ⟨"/b.js"⟩)] second.1 :=
    (Built.nothing.add (Prod.ext rfl hfirst)).add (Prod.ext rfl hsecond)
  have hresolved : ∀ point ∈ (bracketed "").entry.points,
      pair.resolver.resolveEntry ⟨"/"⟩ point.2 = .ok (file point.2) := by decide +kernel
  have hvalid : (bracketed "").entry.validate = .ok () := by decide +kernel
  -- the template plays no part before the chunks are rendered
  have hv (filename : String) : (bracketed filename).entry.validate = .ok () := hvalid
  have henters (filename : String) :
      Enters (bracketed filename) pair.resolver.tree file second.1 := ⟨hresolved, hbuilt⟩
  refine ⟨file, second.1, fun filename => ⟨hv filename, henters filename⟩, ?_, ?_⟩
  · exact ((filenames_collide_iff (hv "out.js") (henters "out.js")).1 "out.js").mpr
      ⟨by decide, by decide, rfl⟩
  · let filename := "[name] [name].js"
    exact (filenames_collide_iff (hv filename) (henters filename)).2.1.mpr
      (.inr (by decide))

end Compilation
end ModuleBundler
