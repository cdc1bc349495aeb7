import ModuleBundler.FileTree.Change

/-! What a write leaves of a tree: paths lead where they led before. -/
namespace ModuleBundler

theorem Path.splitSlash_ne_nil (cs : List Char) : Path.splitSlash cs ≠ [] := by
  cases cs with
  | nil => simp [Path.splitSlash]
  | cons c cs =>
    unfold Path.splitSlash
    split
    · simp
    · split <;> simp

theorem Path.steps_ne_nil (p : Path) : p.steps ≠ [] := by
  simpa [Path.steps] using Path.splitSlash_ne_nil p.text.toList

/-- What can come of a location by writing: something where nothing was, another text. -/
inductive FileNode.Since : Option FileNode → Option FileNode → Prop
  | kept (node : Option FileNode) : Since node node
  | created (node : FileNode) : Since none (some node)
  | written (old new : Option String) : Since (some (.file old)) (some (.file new))

theorem FileNode.Since.trans {a b c : Option FileNode} (hab : Since a b) (hbc : Since b c) :
    Since a c := by
  cases hab with
  | kept => exact hbc
  | created node =>
    cases hbc with
    | kept => exact .created node
    | written old new => exact .created _
  | written old new =>
    cases hbc with
    | kept => exact .written old new
    | written _ newer => exact .written old newer

theorem FileNode.Since.eq_some {node : FileNode} {b : Option FileNode} (h : Since (some node) b)
    (hnode : ∀ text, node ≠ .file text) : b = some node := by
  cases h with
  | kept => rfl
  | written old new => exact absurd rfl (hnode old)

theorem FileNode.Since.no_link {node : FileNode} {b : Option FileNode} (h : Since (some node) b)
    (hnode : ∀ target, node ≠ .link target) :
    ∃ new, b = some new ∧ ∀ target, new ≠ .link target := by
  cases h with
  | kept => exact ⟨node, rfl, hnode⟩
  | written old new => exact ⟨.file new, rfl, fun _ => by simp⟩

namespace FileTree

variable {t after : FileTree} {through : Bool} {p : Path} {l : Location} {node : FileNode}

/-- Whatever is in a tree is in a directory. -/
def Rooted (t : FileTree) : Prop :=
  ∀ l, t.node? l ≠ none → t.node? l.dropLast = some .directory

theorem empty_rooted : empty.Rooted := by
  intro l hl
  cases l with
  | nil => exact node?_nil empty
  | cons name names => exact absurd rfl hl

/-- A tree after writes: directories and links are what they were, and files are files. -/
structure Grows (t after : FileTree) : Prop where
  home : after.home = t.home
  since : ∀ l, FileNode.Since (t.node? l) (after.node? l)

theorem Grows.refl (t : FileTree) : t.Grows t := ⟨rfl, fun _ => .kept _⟩

theorem Grows.trans {late : FileTree} (h : t.Grows after) (h' : after.Grows late) :
    t.Grows late :=
  ⟨h'.home.trans h.home, fun l => (h.since l).trans (h'.since l)⟩

theorem Grows.directory (h : t.Grows after) (hl : t.node? l = some .directory) :
    after.node? l = some .directory :=
  (hl ▸ h.since l).eq_some fun _ => by simp

theorem Grows.link {target : Path} (h : t.Grows after) (hl : t.node? l = some (.link target)) :
    after.node? l = some (.link target) :=
  (hl ▸ h.since l).eq_some fun _ => by simp

theorem grows_put (hl : l ≠ []) (h : FileNode.Since (t.node? l) (some node)) :
    t.Grows (t.put l node) := by
  refine ⟨rfl, fun m => ?_⟩
  by_cases hm : m = l
  · rw [hm, node?_put t hl]
    exact h
  · rw [node?_put_of_ne t hm]
    exact .kept _

/-- What is put into a directory leaves a tree with everything in directories, unless it takes
the place of a directory. -/
theorem Rooted.put (ht : t.Rooted) (hl : l ≠ []) (hin : t.node? l.dropLast = some .directory)
    (hn : t.node? l = some .directory → node = .directory) : (t.put l node).Rooted := by
  intro m hm
  have habove : t.node? m.dropLast = some .directory := by
    by_cases hml : m = l
    · rw [hml]
      exact hin
    · rw [node?_put_of_ne t hml] at hm
      exact ht m hm
  by_cases hlast : m.dropLast = l
  · rw [hlast, node?_put t hl, hn (hlast ▸ habove)]
  · rw [node?_put_of_ne t hlast]
    exact habove

/-- A place in a tree: it is in a directory, and if links are gone through, no link. -/
structure Sound (t : FileTree) (through : Bool) (place : Place) : Prop where
  node_eq : place.node = t.node? place.location
  inside : t.node? place.location.dropLast = some .directory
  noLink : through = true → ∀ target, place.node ≠ some (.link target)

theorem Rooted.sound (ht : t.Rooted) (hl : t.node? l = some node)
    (hlink : through = true → ∀ target, node ≠ .link target) :
    t.Sound through ⟨l, t.node? l⟩ where
  node_eq := rfl
  inside := ht l (by simp [hl])
  noLink := by simpa [hl] using hlink

theorem Rooted.sound_directory (ht : t.Rooted) (hl : t.node? l = some .directory) :
    t.Sound through ⟨l, t.node? l⟩ :=
  ht.sound hl fun _ _ => by simp

variable {enter enter' : Path → Location → List String → Except FileFault Place}
  {here : Location} {steps : List String} {place : Place}

theorem walk_sound (ht : t.Rooted)
    (henter : ∀ {target here rest place}, enter target here rest = .ok place →
      t.Sound through place)
    (hhere : steps = [] → t.Sound through ⟨here, t.node? here⟩)
    (h : t.walk through enter here steps = .ok place) : t.Sound through place := by
  induction steps generalizing here with
  | nil =>
    obtain rfl := Except.ok.inj h
    exact hhere rfl
  | cons step rest ih =>
    rw [walk] at h
    split at h
    · cases h
    next hdir =>
    have hdir : t.node? here = some .directory := Decidable.not_not.mp hdir
    split at h
    · exact ih (fun _ => ht.sound_directory hdir) h
    split at h
    · exact ih (fun _ => ht.sound_directory (ht here (by simp [hdir]))) h
    split at h
    · cases h
    dsimp only at h
    split at h
    next hnode =>
      split at h
      · obtain rfl := Except.ok.inj h
        exact ⟨hnode.symm, by simpa using hdir, by simp⟩
      · cases h
    next target hnode =>
      split at h
      next hlast =>
        obtain rfl := Except.ok.inj h
        exact hnode ▸ ht.sound hnode fun ht => by simp [hlast.2] at ht
      next => exact henter h
    next node hnolink hnode =>
      exact ih (fun _ => ht.sound hnode fun _ target ht => hnolink target ht) h

theorem follow_sound {links : Nat} (ht : t.Rooted) (hsteps : steps ≠ [])
    (h : t.follow through links here steps = .ok place) : t.Sound through place := by
  induction links generalizing here steps place with
  | zero => exact walk_sound ht (fun h => by cases h) (fun he => absurd he hsteps) h
  | succ links ih =>
    refine walk_sound ht (fun h => ih ?_ h) (fun he => absurd he hsteps) h
    simp [Path.steps_ne_nil]

/-- Where a path leads: there is a directory for it, and no link is left to go through. -/
theorem place_sound (ht : t.Rooted) (h : t.place through p = .ok place) :
    t.Sound through place := by
  unfold FileTree.place at h
  split at h
  · cases h
  split at h
  · cases h
  split at h
  · cases h
  exact follow_sound ht p.steps_ne_nil h

theorem walk_grows {found : Option FileNode} (hg : t.Grows after)
    (hlink : ∀ target, after.node? l ≠ some (.link target))
    (henter : ∀ {target here rest found}, enter target here rest = .ok ⟨l, found⟩ →
      enter' target here rest = .ok ⟨l, after.node? l⟩)
    (h : t.walk through enter here steps = .ok ⟨l, found⟩) :
    after.walk through enter' here steps = .ok ⟨l, after.node? l⟩ := by
  induction steps generalizing here with
  | nil =>
    obtain rfl : here = l := congrArg Place.location (Except.ok.inj h)
    rfl
  | cons step rest ih =>
    rw [walk] at h ⊢
    split at h
    · cases h
    next hdir =>
    have hdir : t.node? here = some .directory := Decidable.not_not.mp hdir
    rw [if_neg (Decidable.not_not.mpr (hg.directory hdir))]
    split at h
    next hskip => rw [if_pos hskip, ih h]
    next hskip =>
    rw [if_neg hskip]
    split at h
    next hup => rw [if_pos hup, ih h]
    next hup =>
    rw [if_neg hup]
    split at h
    · cases h
    next hlong =>
    rw [if_neg hlong]
    dsimp only at h ⊢
    split at h
    next hnode =>
      split at h
      next hlast =>
        obtain rfl : here ++ [step] = l := congrArg Place.location (Except.ok.inj h)
        subst hlast
        split
        next hnew => simp [hnew]
        next target hnew => exact absurd hnew (hlink target)
        next => rfl
      next => cases h
    next target hnode =>
      rw [hg.link hnode]
      dsimp only
      split at h
      next hlast =>
        obtain rfl : here ++ [step] = l := congrArg Place.location (Except.ok.inj h)
        exact absurd (hg.link hnode) (hlink target)
      next hlast =>
        rw [if_neg hlast]
        exact henter h
    next node hnolink hnode =>
      obtain ⟨new, hnew, hnolink'⟩ := (hnode ▸ hg.since (here ++ [step])).no_link hnolink
      split
      next hnone => simp [hnew] at hnone
      next target hnew' => exact absurd (Option.some.inj (hnew.symm.trans hnew')) (hnolink' target)
      next => exact ih h

theorem follow_grows {links : Nat} {found : Option FileNode} (hg : t.Grows after)
    (hlink : ∀ target, after.node? l ≠ some (.link target))
    (h : t.follow through links here steps = .ok ⟨l, found⟩) :
    after.follow through links here steps = .ok ⟨l, after.node? l⟩ := by
  induction links generalizing here steps found with
  | zero => exact walk_grows hg hlink (fun h => by cases h) h
  | succ links ih => exact walk_grows hg hlink (fun h => ih h) h

/-- A path leads where it led before the writes, unless a link was put there. -/
theorem Grows.place_eq {found : Option FileNode} (hg : t.Grows after)
    (hlink : ∀ target, after.node? l ≠ some (.link target))
    (h : t.place through p = .ok ⟨l, found⟩) :
    after.place through p = .ok ⟨l, after.node? l⟩ := by
  unfold FileTree.place at h ⊢
  split at h
  · cases h
  next hnul =>
  split at h
  · cases h
  next hempty =>
  split at h
  · cases h
  next hlong =>
  rw [if_neg hnul, if_neg hempty, if_neg hlong, hg.home]
  exact follow_grows hg hlink h

/-- What is there after a file was written: the file where the path leads, and all else as it
was. -/
structure Wrote (t : FileTree) (p : Path) (text : Option String) (after : FileTree)
    (l : Location) : Prop where
  rooted : after.Rooted
  grows : t.Grows after
  leads : after.place true p = .ok ⟨l, some (.file text)⟩
  others : ∀ m, m ≠ l → after.node? m = t.node? m

theorem writeFile_ok {text : Option String} (ht : t.Rooted)
    (h : t.writeFile p text = .ok after) : ∃ l, Wrote t p text after l := by
  unfold writeFile at h
  split at h
  · cases h
  split at h
  · cases h
  next l found hnotdir hplace =>
    obtain rfl := Except.ok.inj h
    obtain ⟨hnode, hinside, hnolink⟩ := place_sound ht hplace
    dsimp only at hnode hinside hnolink
    have hdir : t.node? l ≠ some .directory := fun he => hnotdir (hnode.trans he)
    have hl : l ≠ [] := by
      rintro rfl
      exact hdir (node?_nil t)
    have hsince : FileNode.Since (t.node? l) (some (.file text)) := by
      rw [← hnode] at hdir ⊢
      cases found with
      | none => exact .created _
      | some node =>
        cases node with
        | directory => exact absurd rfl hdir
        | file old => exact .written old text
        | link target => exact absurd rfl (hnolink rfl target)
    have hgrows := grows_put hl hsince
    have hput := node?_put t hl (.file text)
    refine ⟨l, ht.put hl hinside fun he => absurd he hdir, hgrows, ?_, fun m hm =>
      node?_put_of_ne t hm _⟩
    rw [← hput]
    exact hgrows.place_eq (by simp [hput]) hplace
  · cases h

theorem Wrote.node_eq {text : Option String} (h : Wrote t p text after l) :
    after.node? l = some (.file text) :=
  (place_sound h.rooted h.leads).node_eq.symm

/-- A path that a file was written to leads to the same place after further writes. -/
theorem Wrote.leads_later {text : Option String} {late : FileTree} (h : Wrote t p text after l)
    (hg : after.Grows late) : late.place true p = .ok ⟨l, late.node? l⟩ := by
  refine hg.place_eq (fun target hlink => ?_) h.leads
  have hsince := hg.since l
  rw [h.node_eq, hlink] at hsince
  cases hsince

/-- A tree to which directories were added. -/
structure Adds (t after : FileTree) : Prop where
  rooted : after.Rooted
  home : after.home = t.home
  kept : ∀ {l node}, t.node? l = some node → after.node? l = some node

theorem Adds.grows (h : t.Adds after) : t.Grows after where
  home := h.home
  since l := by
    cases hl : t.node? l with
    | none =>
      cases after.node? l with
      | none => exact .kept _
      | some node => exact .created node
    | some node =>
      rw [h.kept hl]
      exact .kept _

theorem Rooted.adds (ht : t.Rooted) : t.Adds t := ⟨ht, rfl, id⟩

theorem Adds.trans {late : FileTree} (h : t.Adds after) (h' : after.Adds late) : t.Adds late :=
  ⟨h'.rooted, h'.home.trans h.home, fun hl => h'.kept (h.kept hl)⟩

theorem create_adds (ht : t.Rooted) (h : t.create p node = .ok after) : t.Adds after := by
  unfold create at h
  split at h
  next l hplace =>
    obtain rfl := Except.ok.inj h
    obtain ⟨hnode, hinside, -⟩ := place_sound ht hplace
    dsimp only at hnode hinside
    have hl : l ≠ [] := by
      rintro rfl
      simp at hnode
    refine ⟨ht.put hl hinside fun he => by simp [← hnode] at he, rfl, fun {m found} hm => ?_⟩
    rw [node?_put_of_ne t (fun he => by simp [he, ← hnode] at hm)]
    exact hm
  · cases h
  · cases h

theorem createAll_adds {paths : List Path} (ht : t.Rooted) :
    t.Adds (t.createAll paths).1 := by
  induction paths generalizing t with
  | nil => exact ht.adds
  | cons p above ih =>
    unfold createAll
    split
    · exact ht.adds
    split
    next t' hcreate => exact create_adds ht hcreate
    next =>
      have habove := ih ht
      split
      next t' fault hcall => simpa [hcall] using habove
      next t' hcall =>
        rw [hcall] at habove
        split
        next t'' hcreate => exact habove.trans (create_adds habove.rooted hcreate)
        next => exact habove
    next => exact ht.adds

end FileTree
end ModuleBundler
