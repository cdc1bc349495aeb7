import ModuleBundler.Proofs.Path.Absolute
import ModuleBundler.Resolve

/-! Whatever a path leads to is in the tree, and so a specifier that means anything means one of
the files there. -/
namespace ModuleBundler

/-- A name that leads down in a tree. -/
def FileTree.IsName (name : String) : Prop := '/' ∉ name.toList ∧ name ≠ ".."

namespace Path

/-- The path does not go up. -/
def Straight (p : Path) : Prop := .parent ∉ p.components

theorem not_mem_of_mem_steps {p : Path} : ∀ s ∈ p.steps, '/' ∉ s.toList := by
  intro s hs
  obtain ⟨piece, hp, rfl⟩ := List.mem_map.mp hs
  rw [String.toList_ofList]
  exact not_mem_of_mem_splitSlash hp

theorem straight_ofLocation {l : Location} (h : ∀ n ∈ l, FileTree.IsName n) :
    (ofLocation l).Straight := by
  have htext : (ofLocation l).lead = (some .root, ['/'].intercalate (l.map String.toList)) := by
    simp [lead, ofLocation, String.toList_intercalate]
  rw [Straight, components, htext, splitSlash_eq_splitOn]
  by_cases hl : l = []
  · subst hl
    decide
  · rw [List.splitOn_intercalate '/' (by simpa using fun n hn => (h n hn).1) (by simpa using hl)]
    intro hm
    rcases List.mem_cons.mp hm with hm | hm
    · cases hm
    · obtain ⟨piece, hp, hparent⟩ := List.mem_filterMap.mp hm
      obtain ⟨n, hn, rfl⟩ := List.mem_map.mp hp
      exact (h n hn).2 (String.toList_inj.mp (component?_text hparent).symm)

end Path

namespace FileTree

variable {t : FileTree} {through : Bool} {p : Path} {here : Location} {steps : List String}
  {P : Location → Prop}

/-- The location of everything in a tree but its root. -/
def locations (t : FileTree) : List Location := t.nodes.map (·.1)

@[simp] theorem length_locations (t : FileTree) : t.locations.length = t.nodes.length := by
  simp [locations]

/-- What is somewhere below the root is one of the nodes. -/
theorem mem_locations {l : Location} {node : FileNode} (hl : l ≠ [])
    (h : t.node? l = some node) : l ∈ t.locations := by
  have hlookup : t.nodes.lookup l = some node := by
    cases l with
    | nil => contradiction
    | cons name names => exact h
  obtain ⟨before, after, hnodes, -⟩ := List.lookup_eq_some_iff.mp hlookup
  simp [locations, hnodes]

theorem walk_node {enter : Path → Location → List String → Except FileFault Place} {place : Place}
    (henter : ∀ {target here rest}, enter target here rest = .ok place →
      place.node = t.node? place.location)
    (h : t.walk through enter here steps = .ok place) : place.node = t.node? place.location := by
  induction steps generalizing here with
  | nil =>
    cases h
    rfl
  | cons step rest ih =>
    rw [walk] at h
    split at h
    · cases h
    split at h
    · exact ih h
    split at h
    · exact ih h
    split at h
    · cases h
    dsimp only at h
    split at h
    · next hnone =>
      split at h
      · cases h
        exact hnone.symm
      · cases h
    · next target hlink =>
      split at h
      · cases h
        exact hlink.symm
      · exact henter h
    · exact ih h

theorem follow_node {links : Nat} {place : Place}
    (h : t.follow through links here steps = .ok place) :
    place.node = t.node? place.location := by
  induction links generalizing here steps with
  | zero =>
    refine walk_node (fun hlink => ?_) h
    cases hlink
  | succ links ih => exact walk_node ih h

/-- A step that goes down to what has that name. -/
def Descends (step : String) : Prop := step ≠ "" ∧ step ≠ "." ∧ step ≠ ".." ∧ '/' ∉ step.toList

/-- Nothing that is done on the way along a path takes it away: going up, or going down from a
directory to what is no link. -/
structure Kept (t : FileTree) (P : Location → Prop) : Prop where
  up {here : Location} : P here → P here.dropLast
  down {here : Location} {name : String} : P here → t.node? here = some .directory →
    Descends name → name.utf8ByteSize ≤ 255 →
    (∀ target, t.node? (here ++ [name]) ≠ some (.link target)) → P (here ++ [name])

/-- Where links are gone through, what is kept holds of where steps lead. -/
theorem Kept.walk (hP : t.Kept P)
    {enter : Path → Location → List String → Except FileFault Place} {place : Place}
    (henter : ∀ {target here rest}, P here → (∀ s ∈ rest, '/' ∉ s.toList) →
      enter target here rest = .ok place → P place.location)
    (hhere : P here) (hsteps : ∀ s ∈ steps, '/' ∉ s.toList)
    (h : t.walk true enter here steps = .ok place) : P place.location := by
  induction steps generalizing here with
  | nil =>
    cases h
    exact hhere
  | cons step rest ih =>
    obtain ⟨hstep, hrest⟩ := List.forall_mem_cons.mp hsteps
    rw [FileTree.walk] at h
    split at h
    · cases h
    next hdirectory =>
    have hdirectory : t.node? here = some .directory := not_not.mp hdirectory
    split at h
    · exact ih hhere hrest h
    next hstay =>
    split at h
    · exact ih (hP.up hhere) hrest h
    next hup =>
    have hd : Descends step := ⟨fun hs => hstay (.inl hs), fun hs => hstay (.inr hs), hup, hstep⟩
    split at h
    · cases h
    next hlong =>
    have hdown := hP.down hhere hdirectory hd (Nat.not_lt.mp hlong)
    dsimp only at h
    split at h
    · next hnone =>
      split at h
      · cases h
        exact hdown fun target hl => by rw [hl] at hnone; cases hnone
      · cases h
    · next target hlink =>
      rw [if_neg fun hc => Bool.noConfusion hc.2] at h
      exact henter hhere hrest h
    · next hlink hnode =>
      refine ih (hdown fun target hl => ?_) hrest h
      exact hlink target (Option.some.inj (hnode.symm.trans hl))

theorem Kept.follow (hP : t.Kept P) (hroot : P []) {links : Nat} {place : Place} (hhere : P here)
    (hsteps : ∀ s ∈ steps, '/' ∉ s.toList)
    (h : t.follow true links here steps = .ok place) : P place.location := by
  induction links generalizing here steps with
  | zero =>
    refine hP.walk (fun _ _ hlink => ?_) hhere hsteps h
    cases hlink
  | succ links ih =>
    refine hP.walk (fun hhere hrest hlink => ?_) hhere hsteps h
    refine ih ?_ (List.forall_mem_append.mpr ⟨Path.not_mem_of_mem_steps, hrest⟩) hlink
    split
    · exact hroot
    · exact hhere

/-- What a path leads to is where its steps lead from where it starts. -/
theorem follow_of_find {l : Location} {node : FileNode} (h : t.find p = .ok (l, node)) :
    t.follow true linkLimit (if p.isAbsolute then [] else t.home) p.steps
      = .ok ⟨l, some node⟩ := by
  unfold find at h
  split at h
  · next hplace =>
    cases h
    unfold place at hplace
    split at hplace
    · cases hplace
    split at hplace
    · cases hplace
    split at hplace
    · cases hplace
    exact hplace
  · cases h
  · cases h

/-- What is kept from the start of a path holds of where it leads. -/
theorem Kept.find (hP : t.Kept P) (hroot : P []) {l : Location} {node : FileNode}
    (hstart : p.isAbsolute = true ∨ P t.home) (h : t.find p = .ok (l, node)) : P l := by
  refine hP.follow hroot ?_ Path.not_mem_of_mem_steps (follow_of_find h)
  split
  · exact hroot
  · next ha => exact hstart.resolve_left ha

theorem kept_names : t.Kept fun l => ∀ n ∈ l, IsName n where
  up h n hn := h n (List.dropLast_subset _ hn)
  down h _ hd _ _ := List.forall_mem_append.mpr
    ⟨h, List.forall_mem_singleton.mpr ⟨hd.2.2.2, hd.2.2.1⟩⟩

/-- From the root a path leads to a location of names. -/
theorem find_names {l : Location} {node : FileNode} (hp : p.isAbsolute = true)
    (h : t.find p = .ok (l, node)) : ∀ n ∈ l, IsName n :=
  kept_names.find (by simp) (.inl hp) h

/-- What a path leads to is at the location to which it leads. -/
theorem find_node {l : Location} {node : FileNode} (h : t.find p = .ok (l, node)) :
    t.node? l = some node :=
  (follow_node (follow_of_find h)).symm

/-- A path of a file leads to one, and not to the root. -/
theorem exists_of_isFile (h : t.isFile p = true) :
    ∃ l text, t.find p = .ok (l, .file text) ∧ t.node? l = some (.file text) ∧ l ≠ [] := by
  unfold isFile at h
  split at h
  · next l text hfind =>
    have hnode := find_node hfind
    refine ⟨l, text, hfind, hnode, ?_⟩
    rintro rfl
    simp at hnode
  · cases h

/-- The path without links of a file is the path of a location in the tree. -/
theorem canonical_of_isFile (h : t.isFile p = true) :
    ∃ l ∈ t.locations, t.canonical p = .ok (.ofLocation l) ∧
      (p.isAbsolute = true → (Path.ofLocation l).Straight) := by
  obtain ⟨l, text, hfind, hnode, hl⟩ := exists_of_isFile h
  refine ⟨l, mem_locations hl hnode, ?_, fun hp => Path.straight_ofLocation (find_names hp hfind)⟩
  rw [canonical, hfind]
  rfl

end FileTree

namespace Search

variable {s other : Search} {p : Path}

theorem found_orElse (h : (s.orElse other).found = some p) :
    s.found = some p ∨ other.found = some p := by
  unfold orElse at h
  split at h
  · exact .inl h
  · exact .inr h

end Search

namespace Resolver

variable {r : Resolver} {p package path importer : Path} {s : Search} {specifier : String}
  {importer? : Option Path}

theorem isFile_of_probe (h : (r.probe path).found = some p) : r.tree.isFile p = true :=
  List.find?_some (Search.first_found_iff.mp h)

/-- Something was found where a path was tried, which is absolute if some other path is. -/
def Probed (r : Resolver) (start : Path) (s : Search) : Prop :=
  ∀ p, s.found = some p → ∃ q, (start.isAbsolute = true → q.isAbsolute = true) ∧
    (r.probe q).found = some p

theorem probed_absolutize (r : Resolver) (p q : Path) : r.Probed p (r.probe (p.absolutize q)) :=
  fun _ h => ⟨p.absolutize q, fun hp => Path.isAbsolute_absolutize hp q, h⟩

theorem probed_searchPackage {inside : Option String}
    (h : r.searchPackage package inside = .ok s) : r.Probed package s := by
  have hindex : r.Probed package (r.probe (package.push ⟨"index"⟩)) :=
    fun _ h => ⟨package.push ⟨"index"⟩, Path.isAbsolute_push, h⟩
  unfold searchPackage at h
  split at h
  · cases h
    exact probed_absolutize r package _
  · obtain ⟨main, -, h⟩ := Except.bind_eq_ok.mp h
    split at h
    · cases h
      intro p hp
      exact (Search.found_orElse hp).elim (probed_absolutize r package _ p) (hindex p)
    · cases h
      exact hindex

theorem probed_searchDirectories {name : String} {inside : Option String} {start : Path}
    {directories : List Path} (h : r.searchDirectories name inside directories = .ok s)
    (hd : ∀ d ∈ directories, start.isAbsolute = true → d.isAbsolute = true) : r.Probed start s := by
  induction directories generalizing s with
  | nil =>
    cases h
    intro p hp
    cases hp
  | cons directory others ih =>
    obtain ⟨hdirectory, hothers⟩ := List.forall_mem_cons.mp hd
    unfold searchDirectories at h
    dsimp only at h
    split at h
    · intro p hp
      obtain ⟨q, hq, hfound⟩ := probed_searchPackage h p hp
      refine ⟨q, fun ha => hq ?_, hfound⟩
      exact Path.isAbsolute_push (Path.isAbsolute_push (hdirectory ha))
    · obtain ⟨rest, hrest, h⟩ := Except.bind_eq_ok.mp h
      cases h
      intro p hp
      rcases Search.found_orElse hp with hp | hp
      · cases hp
      · exact ih hrest hothers p hp

theorem probed_search {directory : Path} (h : r.search specifier directory = .ok s) :
    r.Probed directory s := by
  unfold search at h
  split at h
  · cases h
    exact probed_absolutize r directory _
  · exact probed_searchDirectories h fun d hd ha => Path.isAbsolute_ancestors ha d hd

/-- What is found under an absolute path is an absolute path. -/
theorem isAbsolute_of_probe (h : (r.probe path).found = some p) (hp : path.isAbsolute = true) :
    p.isAbsolute = true := by
  have hsuffix {q : Path} (hq : q.isAbsolute = true) : ∀ d ∈ r.extended q, d.isAbsolute = true := by
    obtain ⟨cs, hcs⟩ := Path.isAbsolute_iff.mp hq
    intro d hd
    obtain ⟨extension, -, rfl⟩ := List.mem_map.mp hd
    simp [Path.withSuffix, Path.isAbsolute, hcs]
  have hm : p ∈ r.candidates path := List.mem_of_find?_eq_some (Search.first_found_iff.mp h)
  rcases List.mem_append.mp hm with hm | hm
  · rcases List.mem_cons.mp hm with rfl | hm
    · exact hp
    · exact hsuffix hp p hm
  · split at hm
    · exact hsuffix (Path.isAbsolute_push hp) p hm
    · cases hm

/-- A path for which something may be found is the path of a location in the tree, and does not go
up if the search began with an absolute path. -/
theorem exists_of_conclude {start : Path} (hs : r.Probed start s)
    (h : r.conclude specifier importer? s = .ok p) :
    ∃ l ∈ r.tree.locations, p = .ofLocation l ∧ (start.isAbsolute = true → p.Straight) := by
  unfold conclude at h
  split at h
  · next q hq =>
    cases h
    obtain ⟨start', hstart, hprobe⟩ := hs q hq
    obtain ⟨l, hl, hcanonical, hstraight⟩ := FileTree.canonical_of_isFile (isFile_of_probe hprobe)
    refine ⟨l, hl, by simp [canonical, hcanonical], fun ha => ?_⟩
    rw [canonical, hcanonical]
    exact hstraight (isAbsolute_of_probe hprobe (hstart ha))
  · cases h

/-- What a specifier means is the path of a location in the tree. -/
theorem exists_of_resolve (h : r.resolve specifier importer = .ok p) :
    ∃ l ∈ r.tree.locations, p = .ofLocation l ∧ (importer.isAbsolute = true → p.Straight) := by
  unfold resolve at h
  obtain ⟨s, hsearch, h⟩ := Except.bind_eq_ok.mp h
  obtain ⟨l, hl, hp, hstraight⟩ := exists_of_conclude (probed_search hsearch) h
  refine ⟨l, hl, hp, fun ha => hstraight ?_⟩
  cases hparent : importer.parent? with
  | none => decide
  | some parent => exact Path.isAbsolute_parent? ha hparent

theorem exists_of_resolveEntry {context entry : Path} (h : r.resolveEntry context entry = .ok p) :
    ∃ l ∈ r.tree.locations, p = .ofLocation l ∧ (context.isAbsolute = true → p.Straight) :=
  exists_of_conclude (probed_absolutize r context entry) h

end Resolver
end ModuleBundler
