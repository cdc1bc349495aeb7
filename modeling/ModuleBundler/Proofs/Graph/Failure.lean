import ModuleBundler.Graph.Load

/-! Why a module cannot be loaded, and which file the failure names. -/
namespace ModuleBundler

/-- The file in which something is wrong, or which asks for what there is not. -/
def BundleError.file? : BundleError → Option Path
  | .read path _ | .transform _ path _ | .parse path _ _ | .dynamicRequire path _ | .edit path _ =>
    some path
  | .resolve (.notFound _ importer? _) => importer?
  | _ => none

theorem Except.exists_of_mapError {ε δ α : Type} {f : ε → δ} {x : Except ε α} {d : δ}
    (h : x.mapError f = .error d) : ∃ e, x = .error e ∧ f e = d := by
  cases x with
  | error e => exact ⟨e, rfl, Except.error.inj h⟩
  | ok a => cases h

theorem Rule.run_error {rules : List Rule} {path : Path} {raw : String} {e : BundleError}
    (h : Rule.run rules path raw = .error e) : ∃ name reason, e = .transform name path reason := by
  unfold Rule.run at h
  generalize Rule.transformsFor rules path = ts at h
  induction ts generalizing e with
  | nil => cases h
  | cons t ts ih =>
    rw [List.foldrM_cons] at h
    cases hr : List.foldrM (fun (t : Transform) source =>
      (t.run source).mapError (BundleError.transform t.name path)) raw ts with
    | error d =>
      rw [hr] at h
      obtain rfl : d = e := by simpa [bind, Except.bind] using h
      exact ih hr
    | ok source =>
      rw [hr] at h
      obtain ⟨reason, -, rfl⟩ := Except.exists_of_mapError h
      exact ⟨t.name, reason, rfl⟩

namespace Resolver

variable {r : Resolver} {package : Path} {specifier : String} {e : ResolveError}

theorem main?_error (h : r.main? package = .error e) : ∃ path reason, e = .package path reason := by
  unfold main? at h
  dsimp only at h
  split at h
  · split at h
    · cases h
      exact ⟨_, _, rfl⟩
    · obtain ⟨reason, -, rfl⟩ := Except.exists_of_mapError h
      exact ⟨_, _, rfl⟩
  · cases h

theorem searchPackage_error {inside : Option String}
    (h : r.searchPackage package inside = .error e) : ∃ path reason, e = .package path reason := by
  unfold searchPackage at h
  split at h
  · cases h
  · rcases Except.bind_eq_error.mp h with h | ⟨main, -, h⟩
    · exact main?_error h
    · split at h <;> cases h

theorem searchDirectories_error {name : String} {inside : Option String}
    {directories : List Path} (h : r.searchDirectories name inside directories = .error e) :
    ∃ path reason, e = .package path reason := by
  induction directories with
  | nil => cases h
  | cons directory others ih =>
    unfold searchDirectories at h
    dsimp only at h
    split at h
    · exact searchPackage_error h
    · rcases Except.bind_eq_error.mp h with h | ⟨s, -, h⟩
      · exact ih h
      · cases h

/-- Either nothing was found for the importer, or the description of a package is wrong. -/
theorem resolve_error {importer : Path} (h : r.resolve specifier importer = .error e) :
    (∃ attempted, e = .notFound specifier (some importer) attempted) ∨
      ∃ path reason, e = .package path reason := by
  unfold resolve at h
  rcases Except.bind_eq_error.mp h with h | ⟨s, -, h⟩
  · unfold search at h
    split at h
    · cases h
    · exact .inr (searchDirectories_error h)
  · unfold conclude at h
    split at h
    · cases h
    · cases h
      exact .inl ⟨_, rfl⟩

end Resolver

namespace Project

variable {p : Project} {path importer : Path} {touched after : PathSet} {e : BundleError}
  {name : String}

/-- The four stages of reading a file, each of which may fail. -/
theorem read_error (h : p.read path = .error e) :
    (∃ fault, e = .read path fault) ∨ (∃ name reason, e = .transform name path reason) ∨
      (∃ source errors, e = .parse path source errors) ∨ ∃ span, e = .dynamicRequire path span := by
  simp only [read, bind, Except.bind, pure, Except.pure] at h
  split at h
  · next hr =>
    obtain rfl := Except.error.inj h
    obtain ⟨fault, -, rfl⟩ := Except.exists_of_mapError hr
    exact .inl ⟨fault, rfl⟩
  split at h
  · next hr =>
    obtain rfl := Except.error.inj h
    exact .inr (.inl (Rule.run_error hr))
  split at h
  · next hr =>
    obtain rfl := Except.error.inj h
    obtain ⟨errors, -, rfl⟩ := Except.exists_of_mapError hr
    exact .inr (.inr (.inl ⟨_, errors, rfl⟩))
  split at h
  · next hr =>
    obtain rfl := Except.error.inj h
    obtain ⟨span, -, rfl⟩ := Except.exists_of_mapError hr
    exact .inr (.inr (.inr ⟨span, rfl⟩))
  · cases h

/-- The first request without an answer is why there are no dependencies. -/
theorem answer_error {requests : List Request}
    (h : p.answer importer touched requests = (after, .error e)) :
    ∃ specifier d, p.resolver.resolve specifier importer = .error d ∧ e = .resolve d := by
  induction requests generalizing touched after e with
  | nil => cases h
  | cons request requests ih =>
    unfold answer at h
    split at h
    · next d hd =>
      cases h
      exact ⟨request.specifier, d, hd, rfl⟩
    · split at h
      · cases h
      · exact ih h

theorem load_error (h : p.load name path touched = (after, .error e)) :
    p.read path = .error e ∨
      (∃ specifier d, p.resolver.resolve specifier path = .error d ∧ e = .resolve d) ∨
      ∃ conflict, e = .edit path conflict := by
  unfold load at h
  split at h
  · next hr =>
    cases h
    exact .inl hr
  split at h
  · next ha =>
    cases h
    exact .inr (.inl (answer_error ha))
  split at h
  · next conflict _ =>
    cases h
    exact .inr (.inr ⟨conflict, rfl⟩)
  · cases h

/-- If a failure to load a file names any file, it is this one. -/
theorem file_of_load_error {q : Path} (h : p.load name path touched = (after, .error e))
    (hq : e.file? = some q) : q = path := by
  rcases load_error h with hr | ⟨specifier, d, hd, rfl⟩ | ⟨conflict, rfl⟩
  · rcases read_error hr with ⟨_, rfl⟩ | ⟨_, _, rfl⟩ | ⟨_, _, rfl⟩ | ⟨_, rfl⟩ <;>
      exact (Option.some.inj hq).symm
  · rcases Resolver.resolve_error hd with ⟨_, rfl⟩ | ⟨_, _, rfl⟩
    · exact (Option.some.inj hq).symm
    · cases hq
  · exact (Option.some.inj hq).symm

end Project
end ModuleBundler
