import Mathlib.Data.List.Forall2
import Mathlib.Data.List.Nodup
import Mathlib.Logic.Relation
import ModuleBundler.Graph.Basic

/-! The index of a graph, and where the name of an entry point spreads to: to the modules that wait
for it, and along dependencies to all others that they reach. -/
namespace ModuleBundler.Graph

/-- One module depends on another. -/
def Asks (ms : List Module) (a b : String) : Prop :=
  ∃ m ∈ ms, m.id = a ∧ ∃ d ∈ m.dependencies, d.id = b

/-- Dependencies lead from one module to another. -/
def Reaches (ms : List Module) : String → String → Prop := Relation.ReflTransGen (Asks ms)

/-- There is a module of this id. -/
def Knows (ms : List Module) (id : String) : Prop := ∃ m ∈ ms, m.id = id

/-- The module of this id has an entry point's name. -/
def Named (name : String) (ms : List Module) (id : String) : Prop :=
  ∃ m ∈ ms, m.id = id ∧ m.hasName name = true

/-- The second module is the first one, perhaps with a name that it lacked. -/
def Renamed (name : String) (m n : Module) : Prop :=
  n = m ∨ (m.hasName name = false ∧ n = m.addName name)

variable {name a : String} {ms ns : List Module} {m n : Module} {id : String}

theorem Named.knows (h : Named name ms id) : Knows ms id := by
  obtain ⟨m, hm, hid, -⟩ := h
  exact ⟨m, hm, hid⟩

theorem Knows.mono (h : Knows ms id) (hs : ms ⊆ ns) : Knows ns id := by
  obtain ⟨m, hm, hid⟩ := h
  exact ⟨m, hs hm, hid⟩

theorem Asks.mono {a b : String} (h : Asks ms a b) (hs : ms ⊆ ns) : Asks ns a b := by
  obtain ⟨m, hm, hid, hd⟩ := h
  exact ⟨m, hs hm, hid, hd⟩

theorem Reaches.mono {a b : String} (h : Reaches ms a b) (hs : ms ⊆ ns) : Reaches ns a b :=
  Relation.ReflTransGen.mono (fun _ _ (hab : Asks ms _ _) => hab.mono hs) _ _ h

/-- Where every dependency is known, so is all that a known module reaches. -/
theorem Reaches.knows {a b : String} (h : Reaches ms a b)
    (hc : ∀ m ∈ ms, ∀ d ∈ m.dependencies, Knows ms d.id) (ha : Knows ms a) : Knows ms b := by
  induction h with
  | refl => exact ha
  | tail _ hab _ =>
    obtain ⟨m, hm, -, d, hd, rfl⟩ := hab
    exact hc m hm d hd

theorem eq_of_id_eq (hn : (ms.map (·.id)).Nodup) (hm : m ∈ ms) (hk : n ∈ ms)
    (hid : m.id = n.id) : m = n :=
  List.inj_on_of_nodup_map hn hm hk hid

@[simp] theorem Renamed.id_eq (h : Renamed name m n) : n.id = m.id := by
  rcases h with rfl | ⟨-, rfl⟩ <;> rfl

@[simp] theorem Renamed.dependencies_eq (h : Renamed name m n) :
    n.dependencies = m.dependencies := by
  rcases h with rfl | ⟨-, rfl⟩ <;> rfl

theorem Renamed.hasName (h : Renamed name m n) (hm : m.hasName a = true) :
    n.hasName a = true := by
  rcases h with rfl | ⟨-, rfl⟩
  · exact hm
  · simp_all [Module.hasName, Module.addName]

theorem Renamed.hasName_ne (h : Renamed name m n) (ha : a ≠ name) :
    n.hasName a = m.hasName a := by
  rcases h with rfl | ⟨-, rfl⟩
  · rfl
  · simp [Module.hasName, Module.addName, ha]

theorem Renamed.trans {k : Module} (h : Renamed name m n) (hk : Renamed name n k) :
    Renamed name m k := by
  rcases h with rfl | ⟨hm, rfl⟩
  · exact hk
  · rcases hk with rfl | ⟨hn, -⟩
    · exact .inr ⟨hm, rfl⟩
    · simp at hn

theorem renamed_refl (ms : List Module) : List.Forall₂ (Renamed name) ms ms :=
  List.forall₂_same.mpr fun _ _ => .inl rfl

theorem renamed_trans {ks : List Module} (h : List.Forall₂ (Renamed name) ms ns)
    (hk : List.Forall₂ (Renamed name) ns ks) : List.Forall₂ (Renamed name) ms ks := by
  induction h generalizing ks with
  | nil => exact hk
  | cons hmn _ ih =>
    cases hk with
    | cons hnk hk => exact .cons (hmn.trans hnk) (ih hk)

theorem renamed_ids (h : List.Forall₂ (Renamed name) ms ns) :
    ns.map (·.id) = ms.map (·.id) := by
  induction h with
  | nil => rfl
  | cons h _ ih => simp [h.id_eq, ih]

/-- What a renamed module was before. -/
theorem exists_of_renamed (h : List.Forall₂ (Renamed name) ms ns) (hn : n ∈ ns) :
    ∃ m ∈ ms, Renamed name m n := by
  induction h with
  | nil => simp at hn
  | cons h _ ih =>
    rcases List.mem_cons.mp hn with rfl | hn
    · exact ⟨_, by simp, h⟩
    · obtain ⟨m, hm, hr⟩ := ih hn
      exact ⟨m, by simp [hm], hr⟩

/-- What a module becomes when names are added. -/
theorem renamed_of_mem (h : List.Forall₂ (Renamed name) ms ns) (hm : m ∈ ms) :
    ∃ n ∈ ns, Renamed name m n := by
  induction h with
  | nil => simp at hm
  | cons h _ ih =>
    rcases List.mem_cons.mp hm with rfl | hm
    · exact ⟨_, by simp, h⟩
    · obtain ⟨n, hn, hr⟩ := ih hm
      exact ⟨n, by simp [hn], hr⟩

theorem knows_iff_mem_ids : Knows ms id ↔ id ∈ ms.map (·.id) := by simp [Knows]

theorem knows_renamed (h : List.Forall₂ (Renamed name) ms ns) : Knows ns id ↔ Knows ms id := by
  rw [knows_iff_mem_ids, knows_iff_mem_ids, renamed_ids h]

theorem Named.renamed (hi : Named a ms id) (h : List.Forall₂ (Renamed name) ms ns) :
    Named a ns id := by
  obtain ⟨m, hm, hid, hn⟩ := hi
  obtain ⟨n, hmem, hr⟩ := renamed_of_mem h hm
  exact ⟨n, hmem, hr.id_eq.trans hid, hr.hasName hn⟩

theorem asks_renamed {a b : String} (h : List.Forall₂ (Renamed name) ms ns) :
    Asks ns a b ↔ Asks ms a b := by
  constructor
  · rintro ⟨n, hn, hid, d, hd, rfl⟩
    obtain ⟨m, hm, hr⟩ := exists_of_renamed h hn
    exact ⟨m, hm, hr.id_eq ▸ hid, d, hr.dependencies_eq ▸ hd, rfl⟩
  · rintro ⟨m, hm, hid, d, hd, rfl⟩
    obtain ⟨n, hn, hr⟩ := renamed_of_mem h hm
    exact ⟨n, hn, hr.id_eq.trans hid, d, hr.dependencies_eq.symm ▸ hd, rfl⟩

theorem reaches_renamed {a b : String} (h : List.Forall₂ (Renamed name) ms ns) :
    Reaches ns a b ↔ Reaches ms a b := by
  have he : Asks ns = Asks ms := by
    funext a b
    exact propext (asks_renamed h)
  rw [Reaches, Reaches, he]

/-- What stands at a place after names were added. -/
theorem exists_getElem?_of_renamed {i : Nat} (h : List.Forall₂ (Renamed name) ms ns)
    (hm : ms[i]? = some m) : ∃ n, ns[i]? = some n ∧ Renamed name m n := by
  induction h generalizing i with
  | nil => simp at hm
  | cons hr _ ih =>
    cases i with
    | zero =>
      obtain rfl := Option.some.inj hm
      exact ⟨_, rfl, hr⟩
    | succ i => exact ih (by simpa using hm)

theorem modify_renamed {i : Nat} (h : ms[i]? = some m) (hm : m.hasName name = false) :
    List.Forall₂ (Renamed name) ms (ms.modify i (·.addName name)) := by
  induction ms generalizing i with
  | nil => simp at h
  | cons k ms ih =>
    cases i with
    | zero =>
      obtain rfl := Option.some.inj h
      exact .cons (.inr ⟨hm, rfl⟩) (renamed_refl ms)
    | succ i => exact .cons (.inl rfl) (ih (by simpa using h))

theorem getElem?_modify_self {i : Nat} (h : ms[i]? = some m) :
    (ms.modify i (·.addName name))[i]? = some (m.addName name) := by
  rw [List.getElem?_modify_eq, h]
  rfl

theorem mem_modify {i : Nat} {k : Module} (hf : ms[i]? = some k)
    (hm : m ∈ ms.modify i (·.addName name)) : m = k.addName name ∨ m ∈ ms := by
  obtain ⟨j, hj⟩ := List.mem_iff_getElem?.mp hm
  by_cases hij : i = j
  · subst hij
    rw [getElem?_modify_self hf] at hj
    exact .inl (Option.some.inj hj).symm
  · rw [List.getElem?_modify_ne _ _ hij] at hj
    exact .inr (List.mem_of_getElem? hj)

/-- An index leads from the id of every module to the place where it stands, and from no other
id anywhere. -/
def Leads (index : List (String × Nat)) (ms : List Module) : Prop :=
  ∀ id i, index.lookup id = some i ↔ ∃ m, ms[i]? = some m ∧ m.id = id

/-- The index of a graph says where its modules stand. -/
def Indexed (g : Graph) : Prop := Leads g.index g.modules

namespace Leads

variable {index : List (String × Nat)}

theorem lookup_id {i : Nat} (h : Leads index ms) (hm : ms[i]? = some m) :
    index.lookup m.id = some i := (h m.id i).mpr ⟨m, hm, rfl⟩

/-- No two modules have one id where each id leads to one place. -/
theorem nodup (h : Leads index ms) : (ms.map (·.id)).Nodup := by
  rw [List.nodup_iff_injective_getElem]
  intro i j hij
  have hi : i.1 < ms.length := by simpa using i.2
  have hj : j.1 < ms.length := by simpa using j.2
  have hplace := h.lookup_id (List.getElem?_eq_getElem hi)
  have hid : ms[i.1].id = ms[j.1].id := by simpa using hij
  rw [hid, h.lookup_id (List.getElem?_eq_getElem hj)] at hplace
  exact Fin.ext (Option.some.inj hplace).symm

theorem knows_iff (h : Leads index ms) : (index.lookup id).isSome = true ↔ Knows ms id := by
  rw [Option.isSome_iff_exists]
  constructor
  · rintro ⟨i, hi⟩
    obtain ⟨m, hm, hid⟩ := (h id i).mp hi
    exact ⟨m, List.mem_of_getElem? hm, hid⟩
  · rintro ⟨m, hm, rfl⟩
    obtain ⟨i, hi⟩ := List.mem_iff_getElem?.mp hm
    exact ⟨i, h.lookup_id hi⟩

theorem renamed (h : Leads index ms) (hr : List.Forall₂ (Renamed name) ms ns) :
    Leads index ns := by
  intro id i
  have hid (j : Nat) : (ns[j]?).map (·.id) = (ms[j]?).map (·.id) := by
    rw [← List.getElem?_map, ← List.getElem?_map, renamed_ids hr]
  have hplace (ks : List Module) : (∃ k, ks[i]? = some k ∧ k.id = id)
      ↔ (ks[i]?).map (·.id) = some id := by simp
  rw [h id i, hplace, hplace, hid]

/-- A module with a new id is put behind all others, and into the index. -/
theorem append (h : Leads index ms) (hm : ¬ Knows ms m.id) :
    Leads ((m.id, ms.length) :: index) (ms ++ [m]) := by
  intro id i
  rcases Nat.lt_trichotomy i ms.length with hi | rfl | hi
  · rw [List.getElem?_append_left hi, ← h id i, List.lookup_cons]
    split
    · next heq =>
      obtain rfl := beq_iff_eq.mp heq
      have hnone : index.lookup m.id = none :=
        Option.not_isSome_iff_eq_none.mp (h.knows_iff.not.mpr hm)
      simp [hnone, Nat.ne_of_gt hi]
    · rfl
  · rw [List.getElem?_concat_length, List.lookup_cons]
    split
    · next heq => simp [(beq_iff_eq.mp heq).symm]
    · next heq =>
      have hne : m.id ≠ id := fun he => by simp [he] at heq
      simp [h id ms.length, hne]
  · have hne : i ≠ ms.length := Nat.ne_of_gt hi
    rw [List.getElem?_append_right (Nat.le_of_lt hi), List.lookup_cons]
    split
    · simp [hne.symm, Nat.sub_ne_zero_of_lt hi]
    · simp [h id i, List.getElem?_eq_none (Nat.le_of_lt hi), Nat.sub_ne_zero_of_lt hi]

end Leads

section Spread

variable {index : List (String × Nat)} {waiting : List Nat}

/-- Names are all that spreads. -/
theorem spread_renamed (index : List (String × Nat)) (ms : List Module) (waiting : List Nat) :
    List.Forall₂ (Renamed name) ms (spread name index ms waiting) := by
  fun_induction spread name index ms waiting with
  | case1 => exact renamed_refl _
  | case2 _ _ _ _ ih => exact ih
  | case3 _ _ _ _ _ _ ih => exact ih
  | case4 ms i _ m hf hm ih => exact renamed_trans (modify_renamed hf (by simpa using hm)) ih

/-- A module that waits for the name gets it. -/
theorem named_spread {i : Nat} (hw : i ∈ waiting) (hm : ms[i]? = some m) :
    Named name (spread name index ms waiting) m.id := by
  fun_induction spread name index ms waiting generalizing m with
  | case1 => simp at hw
  | case2 ms j waiting hf ih =>
    rcases List.mem_cons.mp hw with rfl | hw
    · rw [hf] at hm
      cases hm
    · exact ih hw hm
  | case3 ms j waiting k hf hk ih =>
    rcases List.mem_cons.mp hw with rfl | hw
    · rw [hf] at hm
      obtain rfl := Option.some.inj hm
      exact Named.renamed ⟨k, List.mem_of_getElem? hf, rfl, hk⟩ (spread_renamed _ _ _)
    · exact ih hw hm
  | case4 ms j waiting k hf hk ih =>
    rcases List.mem_cons.mp hw with rfl | hw
    · rw [hf] at hm
      obtain rfl := Option.some.inj hm
      refine Named.renamed ⟨k.addName name, ?_, rfl, by simp⟩ (spread_renamed _ _ _)
      exact List.mem_of_getElem? (getElem?_modify_self hf)
    · obtain ⟨n, hn, hr⟩ :=
        exists_getElem?_of_renamed (modify_renamed hf (by simpa using hk)) hm
      rw [← hr.id_eq]
      exact ih (List.mem_append_right _ hw) hn

/-- The name has come to the module of an id, the module waits for it, or it is not there. -/
def Served (name : String) (index : List (String × Nat)) (waiting : List Nat) (ms : List Module)
    (id : String) : Prop :=
  Named name ms id ∨ (∃ i ∈ waiting, index.lookup id = some i) ∨ ¬ Knows ms id

namespace Served

theorem renamed (h : Served name index waiting ms id) (hr : List.Forall₂ (Renamed a) ms ns) :
    Served name index waiting ns id :=
  h.imp (·.renamed hr) (.imp_right (knows_renamed hr).not.mpr)

theorem mono {others : List Nat} (h : Served name index waiting ms id) (hs : waiting ⊆ others) :
    Served name index others ms id :=
  h.imp_right (.imp_left fun ⟨i, hi, hplace⟩ => ⟨i, hs hi, hplace⟩)

/-- Where a module has the name it need not wait. -/
theorem pop {i : Nat} (h : Served name index (i :: waiting) ms id) (hi : Leads index ms)
    (hn : ∀ m, ms[i]? = some m → m.hasName name = true) : Served name index waiting ms id := by
  rcases h with h | ⟨j, hj, hplace⟩ | h
  · exact .inl h
  · rcases List.mem_cons.mp hj with rfl | hj
    · obtain ⟨m, hm, rfl⟩ := (hi _ _).mp hplace
      exact .inl ⟨m, List.mem_of_getElem? hm, rfl, hn m hm⟩
    · exact .inr (.inl ⟨j, hj, hplace⟩)
  · exact .inr (.inr h)

/-- What a module depends on waits if it is there. -/
theorem places {d : Dependency} (hi : Leads index ms) (hd : d ∈ m.dependencies) :
    Served name index (places index m) ms d.id := by
  cases hplace : index.lookup d.id with
  | some place => exact .inr (.inl ⟨place, List.mem_filterMap.mpr ⟨d, hd, hplace⟩, hplace⟩)
  | none => exact .inr (.inr (hi.knows_iff.not.mp (by simp [hplace])))

end Served

/-- If whatever a module with the name depends on has the name, waits for it or is not there,
nothing waits in the end. -/
theorem spread_closed (hi : Leads index ms)
    (hc : ∀ m ∈ ms, m.hasName name = true → ∀ d ∈ m.dependencies,
      Served name index waiting ms d.id) :
    ∀ m ∈ spread name index ms waiting, m.hasName name = true → ∀ d ∈ m.dependencies,
      Served name index [] (spread name index ms waiting) d.id := by
  fun_induction spread name index ms waiting with
  | case1 ms => exact hc
  | case2 ms i waiting hf ih =>
    refine ih hi fun m hm hnm d hd => (hc m hm hnm d hd).pop hi fun k hk => ?_
    rw [hf] at hk
    cases hk
  | case3 ms i waiting k hf hk ih =>
    refine ih hi fun m hm hnm d hd => (hc m hm hnm d hd).pop hi fun n hn => ?_
    rw [hf] at hn
    exact Option.some.inj hn ▸ hk
  | case4 ms i waiting k hf hk ih =>
    have hr := modify_renamed hf (by simpa using hk)
    have hi' := hi.renamed hr
    refine ih hi' fun m hm hnm d hd => ?_
    rcases mem_modify hf hm with rfl | hm
    · -- the module that was just named: what is known of its dependencies now waits
      refine ((Served.places hi hd).renamed hr).mono fun j hj => ?_
      exact List.mem_append_left _ (List.mem_reverse.mpr hj)
    · refine (((hc m hm hnm d hd).renamed hr).pop hi' fun n hn => ?_).mono
        (List.subset_append_right _ _)
      rw [getElem?_modify_self hf] at hn
      obtain rfl := Option.some.inj hn
      exact hasName_addName k name

/-- The name gets no further than dependencies lead from where it waits. -/
theorem reaches_of_named_spread (hi : Leads index ms)
    (h : Named name (spread name index ms waiting) id) :
    Named name ms id ∨ ∃ i ∈ waiting, ∃ m, ms[i]? = some m ∧ Reaches ms m.id id := by
  fun_induction spread name index ms waiting with
  | case1 => exact .inl h
  | case2 ms i waiting hf ih =>
    rcases ih hi h with h | ⟨j, hj, hr⟩
    · exact .inl h
    · exact .inr ⟨j, List.mem_cons_of_mem _ hj, hr⟩
  | case3 ms i waiting k hf hk ih =>
    rcases ih hi h with h | ⟨j, hj, hr⟩
    · exact .inl h
    · exact .inr ⟨j, List.mem_cons_of_mem _ hj, hr⟩
  | case4 ms i waiting k hf hk ih =>
    have hren := modify_renamed hf (by simpa using hk)
    rcases ih (hi.renamed hren) h with ⟨m, hm, rfl, hnm⟩ | ⟨j, hj, n, hn, hr⟩
    · rcases mem_modify hf hm with rfl | hm
      · exact .inr ⟨i, List.mem_cons_self, k, hf, .refl⟩
      · exact .inl ⟨m, hm, rfl, hnm⟩
    · rw [reaches_renamed hren] at hr
      rcases List.mem_append.mp hj with hj | hj
      · obtain ⟨d, hd, hplace⟩ := List.mem_filterMap.mp (List.mem_reverse.mp hj)
        obtain ⟨n', hn', hid⟩ := ((hi.renamed hren) _ _).mp hplace
        rw [hn] at hn'
        obtain rfl := Option.some.inj hn'
        refine .inr ⟨i, List.mem_cons_self, k, hf, .head ?_ hr⟩
        exact ⟨k, List.mem_of_getElem? hf, rfl, d, hd, hid.symm⟩
      · obtain ⟨n', hn', hid⟩ := (hi n.id j).mp ((hi.renamed hren).lookup_id hn)
        exact .inr ⟨j, List.mem_cons_of_mem _ hj, n', hn', hid ▸ hr⟩

end Spread

variable {g : Graph}

theorem spreadName_renamed (g : Graph) (id name : String) :
    List.Forall₂ (Renamed name) g.modules (g.spreadName id name).modules := spread_renamed ..

@[simp] theorem knows_spreadName : Knows (g.spreadName a name).modules id ↔ Knows g.modules id :=
  knows_renamed (spreadName_renamed g a name)

theorem spreadName_ids (g : Graph) (id name : String) :
    (g.spreadName id name).modules.map (·.id) = g.modules.map (·.id) :=
  renamed_ids (spreadName_renamed g id name)

/-- What is in the index has been built. -/
def Sound (g : Graph) : Prop := ∀ id, g.has id = true → Knows g.modules id

namespace Sound

theorem append (h : g.Sound) : (g.append m).Sound := by
  intro id hid
  rcases has_append.mp hid with rfl | hid
  · exact ⟨m, by simp [Graph.append], rfl⟩
  · exact (h id hid).mono (List.subset_append_left _ _)

theorem spreadName (h : g.Sound) : (g.spreadName id name).Sound :=
  fun id hid => knows_spreadName.mpr (h id hid)

end Sound

namespace Indexed

theorem has_iff (h : g.Indexed) : g.has id = true ↔ Knows g.modules id := Leads.knows_iff h

theorem sound (h : g.Indexed) : g.Sound := fun _ => h.has_iff.mp

theorem find?_of_mem (h : g.Indexed) (hm : m ∈ g.modules) : g.find? m.id = some m := by
  obtain ⟨i, hi⟩ := List.mem_iff_getElem?.mp hm
  rw [find?, position?, h.lookup_id hi, Option.bind_some, hi]

theorem empty : Graph.empty.Indexed := by simp [Indexed, Leads, Graph.empty]

theorem append (h : g.Indexed) (hm : ¬ Knows g.modules m.id) : (g.append m).Indexed :=
  Leads.append h hm

theorem spreadName (h : g.Indexed) : (g.spreadName id name).Indexed :=
  h.renamed (spreadName_renamed g id name)

/-- The module that the name is given to gets it. -/
theorem named_spreadName (h : g.Indexed) (hk : Knows g.modules id) :
    Named name (g.spreadName id name).modules id := by
  obtain ⟨m, hm, rfl⟩ := hk
  obtain ⟨i, hi⟩ := List.mem_iff_getElem?.mp hm
  exact named_spread (by simp [position?, h.lookup_id hi]) hi

theorem spreadName_closed (h : g.Indexed)
    (hc : ∀ m ∈ g.modules, m.hasName name = true → ∀ d ∈ m.dependencies,
      Named name g.modules d.id ∨ ¬ Knows g.modules d.id) :
    ∀ m ∈ (g.spreadName id name).modules, m.hasName name = true → ∀ d ∈ m.dependencies,
      Named name (g.spreadName id name).modules d.id ∨ ¬ Knows g.modules d.id := by
  intro m hm hmn d hd
  rcases spread_closed h (fun m hm hmn d hd => (hc m hm hmn d hd).imp_right .inr) m hm hmn d hd
    with hd | ⟨_, hd, -⟩ | hd
  · exact .inl hd
  · cases hd
  · exact .inr (knows_spreadName.not.mp hd)

theorem reaches_of_named_spreadName (h : g.Indexed)
    (ha : Named name (g.spreadName id name).modules a) :
    Named name g.modules a ∨ Reaches g.modules id a := by
  refine (reaches_of_named_spread h ha).imp_right ?_
  rintro ⟨i, hi, m, hm, hr⟩
  obtain ⟨n, hn, hid⟩ := (h id i).mp (show g.position? id = some i by simpa using hi)
  rw [hm] at hn
  obtain rfl := Option.some.inj hn
  exact hid ▸ hr

end Indexed
end ModuleBundler.Graph
