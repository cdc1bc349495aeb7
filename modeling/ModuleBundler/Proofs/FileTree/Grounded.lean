import ModuleBundler.Proofs.FileTree.Canonical
import ModuleBundler.Proofs.Path.Normal

/-! Where a path has led once, the path of that place leads again. -/
namespace ModuleBundler

namespace Path

/-- The system takes the path: it can be passed on, and is not too long. -/
def Accepted (p : Path) : Prop := '\x00' ∉ p.text.toList ∧ p.text.utf8ByteSize < 4096

instance (p : Path) : Decidable p.Accepted := inferInstanceAs (Decidable (_ ∧ _))

theorem plain_of_descends {name : String} (h : FileTree.Descends name) :
    (Component.normal name).Plain := by
  obtain ⟨hempty, hpoint, hup, hslash⟩ := h
  have hne {cs : List Char} (hn : name ≠ String.ofList cs) : name.toList ≠ cs := by
    rintro rfl
    exact hn String.ofList_toList.symm
  refine ⟨hslash, ?_⟩
  change component? name.toList = some (.normal name)
  rw [component?, if_neg (not_or.mpr ⟨hne hempty, hne hpoint⟩), if_neg (hne hup),
    String.ofList_toList]

/-- The path of a location has no detours. -/
theorem normalize_ofLocation {l : Location} (h : ∀ name ∈ l, FileTree.Descends name) :
    (ofLocation l).normalize = ofLocation l := by
  have hplain : ∀ c ∈ l.map Component.normal, c.Plain := by
    intro c hc
    obtain ⟨name, hn, rfl⟩ := List.mem_map.mp hc
    exact plain_of_descends (h name hn)
  have htext : ofLocation l = ⟨"/" ++ spelled (l.map .normal)⟩ := by
    simp [ofLocation, spelled, Function.comp_def, Component.text]
  have hfold : fold [] .root = [.root] := rfl
  have hcomponents : ((ofLocation l).components.foldl fold []).reverse
      = [] ++ .root :: l.map .normal := by
    rw [htext, components_root hplain, List.foldl_cons, hfold, foldl_fold_names]
    simp
  have hspelled : (ofComponents ([] ++ .root :: l.map .normal)).text
      = "/" ++ spelled (l.map .normal) := text_ofComponents_root hplain
  rw [normalize, hcomponents, htext]
  exact congrArg Path.mk hspelled

end Path

namespace FileTree

variable {t : FileTree} {l here : Location} {names : List String} {node : FileNode} {p q : Path}

/-- Each name on the way to a location stands in a directory, and is not too long for a name. -/
def Grounded (t : FileTree) (l : Location) : Prop :=
  ∀ above name, above ++ [name] <+: l →
    t.node? above = some .directory ∧ name.utf8ByteSize ≤ 255

theorem grounded_nil : t.Grounded [] := by
  intro above name h
  simp at h

theorem kept_grounded : t.Kept t.Grounded where
  up h above name hn := h above name (hn.trans (List.dropLast_prefix _))
  down h hdirectory _ hlong _ := forall_step_concat h ⟨hdirectory, hlong⟩

/-- Relative paths start at a directory to which its own path leads. -/
def Homed (t : FileTree) : Prop := t.find (.ofLocation t.home) = .ok (t.home, .directory)

instance (t : FileTree) : Decidable t.Homed :=
  inferInstanceAs (Decidable (t.find (.ofLocation t.home) = .ok (t.home, .directory)))

/-- The names on the way to what is in the tree lead there, where they neither meet a link nor are
refused. -/
theorem walk_eq (through : Bool) (enter : Path → Location → List String → Except FileFault Place)
    (hd : t.Direct (here ++ names)) (hg : t.Grounded (here ++ names))
    (hnode : t.node? (here ++ names) = some node) :
    t.walk through enter here names = .ok ⟨here ++ names, some node⟩ := by
  induction names generalizing here with
  | nil =>
    rw [List.append_nil] at hnode ⊢
    rw [walk, hnode]
  | cons name rest ih =>
    have happend : here ++ name :: rest = here ++ [name] ++ rest := by simp
    have hp : here ++ [name] <+: here ++ name :: rest := ⟨rest, happend.symm⟩
    obtain ⟨⟨hempty, hpoint, hup, -⟩, hlink⟩ := hd here name hp
    obtain ⟨hdirectory, hlong⟩ := hg here name hp
    -- what the name leads to is there, since it is what is looked for or a directory above that
    have hthere : ∃ there, t.node? (here ++ [name]) = some there := by
      cases rest with
      | nil => exact ⟨node, hnode⟩
      | cons next rest => exact ⟨.directory, (hg (here ++ [name]) next ⟨rest, by simp⟩).1⟩
    obtain ⟨there, hthere⟩ := hthere
    rw [happend] at hd hg hnode ⊢
    rw [walk, if_neg (not_not.mpr hdirectory), if_neg (not_or.mpr ⟨hempty, hpoint⟩), if_neg hup,
      if_neg (Nat.not_lt.mpr hlong)]
    dsimp only
    rw [hthere]
    cases there with
    | link target => exact absurd hthere (hlink target)
    | directory => exact ih hd hg hnode
    | file text => exact ih hd hg hnode

/-- The path of a location that can be walked to leads to what is there. -/
theorem find_ofLocation_eq (hd : t.Direct l) (hg : t.Grounded l) (hl : l ≠ [])
    (hnode : t.node? l = some node) (ha : (Path.ofLocation l).Accepted) :
    t.find (.ofLocation l) = .ok (l, node) := by
  have hslash : ∀ name ∈ l, '/' ∉ name.toList := fun name hn => (hd.descends name hn).2.2.2
  have hempty : (Path.ofLocation l).text.isEmpty = false := by
    rw [Bool.eq_false_iff, ne_eq, String.isEmpty_iff, ← String.toList_eq_nil_iff]
    simp [Path.ofLocation]
  have hwalk (enter : Path → Location → List String → Except FileFault Place) :
      t.walk true enter [] l = .ok ⟨[] ++ l, some node⟩ := walk_eq true enter hd hg hnode
  have hplace : t.place true (.ofLocation l) = .ok ⟨l, some node⟩ := by
    rw [place, if_neg (by simpa using ha.1), if_neg (by simp [hempty]),
      if_neg (Nat.not_le.mpr ha.2), if_pos (Path.isAbsolute_ofLocation l),
      Path.steps_ofLocation hslash hl, linkLimit, follow, walk, if_neg (by simp),
      if_pos (.inl rfl)]
    exact hwalk _
  rw [find, hplace]

/-- What is kept from the root holds of where a path leads, if relative paths start where a path
from the root leads. -/
theorem Kept.find_homed {P : Location → Prop} (hP : t.Kept P) (hroot : P [])
    (hstart : p.isAbsolute = true ∨ t.Homed) (h : t.find p = .ok (l, node)) : P l :=
  hP.find hroot
    (hstart.imp_right (hP.find hroot (.inl (Path.isAbsolute_ofLocation t.home)))) h

/-- The path without links of a file is one without detours, and it leads to that file. -/
theorem canonical_leads (hstart : p.isAbsolute = true ∨ t.Homed) (hf : t.isFile p = true)
    (hq : t.canonical p = .ok q) (ha : q.Accepted) :
    q.isAbsolute = true ∧ q.normalize = q ∧ t.isFile q = true ∧ t.canonical q = .ok q := by
  obtain ⟨l, text, hfind, hnode, hl⟩ := exists_of_isFile hf
  rw [canonical, hfind] at hq
  cases hq
  have hd : t.Direct l := kept_direct.find_homed direct_nil hstart hfind
  have hg : t.Grounded l := kept_grounded.find_homed grounded_nil hstart hfind
  have hback := find_ofLocation_eq hd hg hl hnode ha
  refine ⟨Path.isAbsolute_ofLocation l, Path.normalize_ofLocation hd.descends, ?_, ?_⟩
  · rw [isFile, hback]
  · rw [canonical, hback]
    rfl

end FileTree
end ModuleBundler
