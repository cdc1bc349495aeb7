import ModuleBundler.Proofs.FileTree.Found

/-! The path without links of what was found leads to itself, if it leads anywhere. -/
namespace ModuleBundler

namespace FileTree

variable {t : FileTree} {l here : Location} {p : Path} {names : List String}

/-- Each name on the way to a location leads down, and to no link. -/
def Direct (t : FileTree) (l : Location) : Prop :=
  ∀ above name, above ++ [name] <+: l →
    Descends name ∧ ∀ target, t.node? (above ++ [name]) ≠ some (.link target)

theorem direct_nil : t.Direct [] := by
  intro above name h
  simp at h

theorem Direct.of_prefix (h : t.Direct l) (hp : here <+: l) : t.Direct here :=
  fun above name hn => h above name (hn.trans hp)

theorem Direct.descends (h : t.Direct l) : ∀ name ∈ l, Descends name := by
  intro name hn
  obtain ⟨above, below, rfl⟩ := List.append_of_mem hn
  exact (h above name ⟨below, by simp⟩).1

/-- What holds of each step on the way to a location, and of one step more. -/
theorem forall_step_concat {P : Location → String → Prop} {name : String}
    (h : ∀ above other, above ++ [other] <+: here → P above other) (hn : P here name) :
    ∀ above other, above ++ [other] <+: here ++ [name] → P above other := by
  intro above other hp
  rcases List.prefix_concat_iff.mp hp with he | hp
  · obtain ⟨rfl, rfl⟩ := List.append_inj' he rfl |>.imp_right List.singleton_inj.mp
    exact hn
  · exact h above other hp

theorem kept_direct : t.Kept t.Direct where
  up h := h.of_prefix (List.dropLast_prefix _)
  down h _ hd _ hl := forall_step_concat h ⟨hd, hl⟩

/-- What an absolute path leads to is at a direct location. -/
theorem find_direct {node : FileNode} (hp : p.isAbsolute = true) (h : t.find p = .ok (l, node)) :
    t.Direct l :=
  kept_direct.find direct_nil (.inl hp) h

/-- The names of a direct location lead to it, if they lead anywhere. -/
theorem walk_of_direct {enter : Path → Location → List String → Except FileFault Place}
    {through : Bool} {place : Place} (hd : t.Direct (here ++ names))
    (h : t.walk through enter here names = .ok place) : place.location = here ++ names := by
  induction names generalizing here with
  | nil =>
    cases h
    rw [List.append_nil]
  | cons name rest ih =>
    rw [walk] at h
    split at h
    · cases h
    have hp : here ++ [name] <+: here ++ name :: rest := ⟨rest, by simp⟩
    obtain ⟨⟨hempty, hpoint, hup, -⟩, hlink⟩ := hd here name hp
    have hstay : ¬(name = "" ∨ name = ".") := not_or.mpr ⟨hempty, hpoint⟩
    rw [if_neg hstay, if_neg hup] at h
    split at h
    · cases h
    dsimp only at h
    split at h
    · split at h
      · next hrest =>
        cases h
        rw [hrest]
      · cases h
    · next target hl => exact absurd hl (hlink target)
    · have hr := ih (by simpa using hd) h
      rw [hr, List.append_assoc, List.singleton_append]

end FileTree

namespace Path

theorem isAbsolute_ofLocation (l : Location) : (ofLocation l).isAbsolute = true := by
  simp [isAbsolute, ofLocation]

theorem steps_ofLocation {l : Location} (h : ∀ n ∈ l, '/' ∉ n.toList) (hl : l ≠ []) :
    (ofLocation l).steps = "" :: l := by
  have htext : (ofLocation l).text.toList = '/' :: ['/'].intercalate (l.map String.toList) := by
    simp [ofLocation, String.toList_intercalate]
  have hempty : String.ofList [] = "" := rfl
  rw [steps, htext, splitSlash_slash, splitSlash_eq_splitOn,
    List.splitOn_intercalate '/' (by simpa using h) (by simpa using hl), List.map_cons, hempty,
    List.map_map]
  simp [Function.comp_def]

end Path

namespace FileTree

variable {t : FileTree} {l : Location} {p q : Path}

/-- The path of a direct location leads to that location, if it leads anywhere. -/
theorem find_ofLocation {found : Location × FileNode} (hd : t.Direct l) (hl : l ≠ [])
    (h : t.find (.ofLocation l) = .ok found) : found.1 = l := by
  have hslash : ∀ name ∈ l, '/' ∉ name.toList := fun name hn => (hd.descends name hn).2.2.2
  -- the walk starts at the root, where the empty name before the first slash leads
  have hwalk {enter : Path → Location → List String → Except FileFault Place} {place : Place}
      (h : t.walk true enter [] ("" :: l) = .ok place) : place.location = l := by
    rw [walk, if_neg (by simp), if_pos (.inl rfl)] at h
    exact walk_of_direct hd h
  have hfollow := follow_of_find h
  rw [if_pos (Path.isAbsolute_ofLocation l), Path.steps_ofLocation hslash hl, linkLimit, follow]
    at hfollow
  exact hwalk hfollow

/-- The path without links of a file leads to itself, if it leads anywhere. -/
theorem canonical_of_canonical {found : Location × FileNode} (hp : p.isAbsolute = true)
    (hf : t.isFile p = true) (hq : t.canonical p = .ok q) (h : t.find q = .ok found) :
    t.canonical q = .ok q := by
  obtain ⟨l, text, hfind, -, hl⟩ := exists_of_isFile hf
  rw [canonical, hfind] at hq
  cases hq
  have hfound := find_ofLocation (find_direct hp hfind) hl h
  rw [canonical, h]
  exact congrArg (Except.ok ∘ Path.ofLocation) hfound

end FileTree

namespace Resolver

variable {r : Resolver} {s : Search} {start importer p : Path} {specifier : String}
  {importer? : Option Path} {found : Location × FileNode}

/-- What is concluded from an absolute path leads to itself, if it leads anywhere. -/
theorem canonical_of_conclude (hs : r.Probed start s) (ha : start.isAbsolute = true)
    (h : r.conclude specifier importer? s = .ok p) (hf : r.tree.find p = .ok found) :
    r.tree.canonical p = .ok p := by
  unfold conclude at h
  split at h
  · next q hq =>
    cases h
    obtain ⟨start', hstart, hprobe⟩ := hs q hq
    have hfile := isFile_of_probe hprobe
    obtain ⟨l, -, hcanonical, -⟩ := FileTree.canonical_of_isFile hfile
    have hl : r.canonical q = .ofLocation l := by rw [canonical, hcanonical]
    rw [hl] at hf ⊢
    exact FileTree.canonical_of_canonical (isAbsolute_of_probe hprobe (hstart ha)) hfile
      hcanonical hf
  · cases h

/-- What a specifier means in a file with an absolute path leads to itself, if it leads
anywhere. -/
theorem canonical_of_resolve (h : r.resolve specifier importer = .ok p)
    (ha : importer.isAbsolute = true) (hf : r.tree.find p = .ok found) :
    r.tree.canonical p = .ok p := by
  unfold resolve at h
  obtain ⟨s, hsearch, h⟩ := Except.bind_eq_ok.mp h
  refine canonical_of_conclude (probed_search hsearch) ?_ h hf
  cases hparent : importer.parent? with
  | none => decide
  | some parent => exact Path.isAbsolute_parent? ha hparent

end Resolver
end ModuleBundler
