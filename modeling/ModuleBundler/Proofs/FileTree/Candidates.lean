import ModuleBundler.Proofs.FileTree.Grounded

/-! What a specifier means is the first file among what it may mean. -/
namespace ModuleBundler

namespace Search

theorem nothing_orElse (s : Search) : nothing.orElse s = s := by
  simp [orElse, nothing]

theorem orElse_assoc (s other last : Search) :
    (s.orElse other).orElse last = s.orElse (other.orElse last) := by
  obtain ⟨attempted, _ | p⟩ := s
  · obtain ⟨attempted', _ | q⟩ := other <;> simp [orElse]
  · simp [orElse]

/-- Candidates behind others are tried if none of the others is a file. -/
theorem first_append (t : FileTree) (ps qs : List Path) :
    first t (ps ++ qs) = (first t ps).orElse (first t qs) := by
  induction ps with
  | nil => exact (nothing_orElse _).symm
  | cons p ps ih =>
    rw [List.cons_append, first, first]
    split
    · rfl
    · rw [ih, orElse_assoc]

end Search

/-- What is looked at for a specifier: directories of packages that are not there, and behind them
the files that it may mean. -/
structure Agenda where
  absent : List Path
  candidates : List Path
  deriving DecidableEq, Repr

namespace Agenda

/-- What is found where all of it is looked at in order. -/
def search (t : FileTree) (a : Agenda) : Search :=
  (Search.mk a.absent none).orElse (.first t a.candidates)

theorem search_found (t : FileTree) (a : Agenda) :
    (a.search t).found = a.candidates.find? t.isFile :=
  Option.ext fun _ => Search.first_found_iff

theorem search_attempted {t : FileTree} {a : Agenda} (h : a.candidates.find? t.isFile = none) :
    (a.search t).attempted = a.absent ++ a.candidates :=
  congrArg (a.absent ++ ·) (Search.first_attempted ((search_found t a).trans h))

end Agenda

namespace Resolver

variable {r : Resolver} {specifier : String} {importer directory package p : Path}
  {inside : Option String} {e : ResolveError}

/-- Where a package may be that is asked for below directories, in their order. -/
def packageDirectories (name : String) (directories : List Path) : List Path :=
  directories.map fun d => (d.push ⟨"node_modules"⟩).push ⟨name⟩

/-- What may be meant by a path in a package, or by the package itself: its main file, if its
description names one, or its index. -/
def packageCandidates (r : Resolver) (package : Path) :
    Option String → Except ResolveError (List Path)
  | some inside => .ok (r.candidates (package.absolutize ⟨inside⟩))
  | none => do
    let main ← r.main? package
    return main.toList.flatMap (fun main => r.candidates (package.absolutize ⟨main⟩)) ++
      r.candidates (package.push ⟨"index"⟩)

/-- What is looked at for a path in a package, or for the package, that is asked for below
directories: the first package that is there. -/
def packageAgenda (r : Resolver) (name : String) (inside : Option String)
    (directories : List Path) : Except ResolveError Agenda :=
  let packages := packageDirectories name directories
  let absent := packages.takeWhile fun package => !r.tree.isDirectory package
  match packages.find? r.tree.isDirectory with
  | some package => Agenda.mk absent <$> r.packageCandidates package inside
  | none => .ok ⟨absent, []⟩

/-- What is looked at for a specifier in a directory. -/
def agenda (r : Resolver) (specifier : String) (directory : Path) : Except ResolveError Agenda :=
  if isRelativeSpecifier specifier || (Path.mk specifier).isAbsolute then
    .ok ⟨[], r.candidates (directory.absolutize ⟨specifier⟩)⟩
  else
    let (name, inside) := splitPackage specifier
    r.packageAgenda name inside directory.ancestors

theorem searchPackage_eq (r : Resolver) (package : Path) (inside : Option String) :
    r.searchPackage package inside =
      Search.first r.tree <$> r.packageCandidates package inside := by
  cases inside with
  | some inside => rfl
  | none =>
    rw [searchPackage, packageCandidates]
    cases r.main? package with
    | error e => rfl
    | ok main =>
      cases main with
      | none => rfl
      | some main => exact congrArg Except.ok (by simp [Search.first_append, probe])

/-- Of directories the first is looked at before the others. -/
theorem packageAgenda_cons (r : Resolver) (name : String) (inside : Option String)
    (directory : Path) (others : List Path) :
    r.packageAgenda name inside (directory :: others) =
      let package := (directory.push ⟨"node_modules"⟩).push ⟨name⟩
      if r.tree.isDirectory package then Agenda.mk [] <$> r.packageCandidates package inside
      else (fun a => { a with absent := package :: a.absent }) <$>
        r.packageAgenda name inside others := by
  have hcons : packageDirectories name (directory :: others) =
      (directory.push ⟨"node_modules"⟩).push ⟨name⟩ :: packageDirectories name others := rfl
  simp only [packageAgenda, hcons, List.find?_cons, List.takeWhile_cons]
  cases r.tree.isDirectory ((directory.push ⟨"node_modules"⟩).push ⟨name⟩) with
  | true => rfl
  | false =>
    cases (packageDirectories name others).find? r.tree.isDirectory with
    | none => rfl
    | some package =>
      dsimp only
      cases r.packageCandidates package inside <;> rfl

theorem searchDirectories_eq (r : Resolver) (name : String) (inside : Option String)
    (directories : List Path) : r.searchDirectories name inside directories
      = Agenda.search r.tree <$> r.packageAgenda name inside directories := by
  induction directories with
  | nil => rfl
  | cons directory others ih =>
    rw [searchDirectories, packageAgenda_cons, ih]
    dsimp only
    split
    · rw [searchPackage_eq]
      cases r.packageCandidates _ inside with
      | error e => rfl
      | ok candidates => exact congrArg Except.ok (Search.nothing_orElse _).symm
    · cases r.packageAgenda name inside others with
      | error e => rfl
      | ok a => exact congrArg Except.ok (Search.orElse_assoc _ ⟨a.absent, none⟩ _).symm

/-- A search goes through an agenda in its order. -/
theorem search_eq (r : Resolver) (specifier : String) (directory : Path) :
    r.search specifier directory = Agenda.search r.tree <$> r.agenda specifier directory := by
  unfold search agenda
  split
  · exact congrArg Except.ok (Search.nothing_orElse _).symm
  · exact searchDirectories_eq ..

/-- Where a package does not say what its main file is, it has a description that is none. -/
theorem of_main?_error (h : r.main? package = .error e) :
    r.tree.isFile (package.push ⟨"package.json"⟩) = true ∧
      ∀ text, r.tree.readText (package.push ⟨"package.json"⟩) = .ok text →
        ∃ reason, r.packageMain text = .error reason := by
  unfold main? at h
  dsimp only at h
  split at h
  · next hfile =>
    refine ⟨hfile, fun text htext => ?_⟩
    rw [htext] at h
    dsimp only at h
    cases hmain : r.packageMain text with
    | error reason => exact ⟨reason, rfl⟩
    | ok main =>
      rw [hmain] at h
      cases h
  · cases h

/-- What is looked at is known, unless the package that is there and that is asked for itself has a
description that is none. -/
theorem of_agenda_error (h : r.agenda specifier directory = .error e) :
    ∃ package, (packageDirectories (splitPackage specifier).1 directory.ancestors).find?
        r.tree.isDirectory = some package ∧
      (splitPackage specifier).2 = none ∧ r.main? package = .error e := by
  unfold agenda at h
  split at h
  · cases h
  · unfold packageAgenda at h
    dsimp only at h
    split at h
    · next package hfound =>
      refine ⟨package, hfound, ?_⟩
      cases hinside : (splitPackage specifier).2 with
      | some inside =>
        rw [hinside] at h
        cases h
      | none =>
        refine ⟨rfl, ?_⟩
        rw [hinside, packageCandidates] at h
        cases hmain : r.main? package with
        | error e' =>
          rw [hmain] at h
          cases h
          rfl
        | ok main =>
          rw [hmain] at h
          cases h
    · cases h

/-- A path of a file without links and detours means itself everywhere. -/
theorem resolve_self (hp : p.isAbsolute = true) (hn : p.normalize = p)
    (hf : r.tree.isFile p = true) (hc : r.tree.canonical p = .ok p) (importer : Path) :
    r.resolve p.text importer = .ok p := by
  have hfound : (r.probe p).found = some p :=
    Search.first_found_iff.mpr (by rw [candidates, List.cons_append, List.find?_cons_of_pos hf])
  have hsearch : r.search p.text (importer.parent?.getD ⟨"/"⟩) = .ok (r.probe p) := by
    rw [search, if_pos (by simp [hp]), Path.absolutize, if_pos hp, hn]
  rw [resolve, hsearch]
  change r.conclude p.text (some importer) (r.probe p) = .ok p
  rw [conclude, hfound]
  dsimp only
  rw [canonical, hc]

/-- What is found is an absolute path if the search began with one. -/
theorem isAbsolute_of_search {s : Search} (h : r.search specifier directory = .ok s)
    (hd : directory.isAbsolute = true) (hp : s.found = some p) : p.isAbsolute = true := by
  obtain ⟨q, hq, hprobe⟩ := probed_search h p hp
  exact isAbsolute_of_probe hprobe (hq hd)

end Resolver
end ModuleBundler
