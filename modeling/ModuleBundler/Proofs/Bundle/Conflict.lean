import ModuleBundler.Bundle.Compilation
import ModuleBundler.Proofs.Analysis.Tidy
import ModuleBundler.Proofs.Bundle.Chunk
import ModuleBundler.Proofs.Graph.Failure

/-! The edits of a module never conflict, so no pass fails because of them. -/
namespace ModuleBundler
open ModuleBundler.Text

namespace Analysis
variable {source : String} {program : Program} {analysis : Analysis}

theorem spans_edits (analysis : Analysis) (ids : List String) :
    (analysis.edits ids).map Edit.span = analysis.replacements.map Replacement.span := by
  rw [edits, List.map_map]
  rfl

theorem apply_edits_ok (h : Program.parse source = .ok program)
    (ha : ofProgram program source = .ok analysis) (ids : List String) :
    ∃ text, Edit.apply (analysis.edits ids) source = .ok text := by
  have ht := tidy_replacements h ha
  rw [← spans_edits analysis ids] at ht
  exact Edit.apply_of_tidy ht

end Analysis

/-- The error is about edits. -/
def BundleError.IsEdit (e : BundleError) : Prop := ∃ path conflict, e = .edit path conflict

namespace Project
variable {p : Project} {path : Path} {touched after : PathSet} {e : BundleError}

theorem not_isEdit_of_load {name : String} (h : p.load name path touched = (after, .error e)) :
    ¬e.IsEdit := by
  unfold load at h
  split at h
  · next hr =>
    cases h
    rcases read_error hr with ⟨_, rfl⟩ | ⟨_, _, rfl⟩ | ⟨_, _, rfl⟩ | ⟨_, rfl⟩ <;>
      rintro ⟨_, _, ⟨⟩⟩
  · next source analysis hr =>
    split at h
    · next ha =>
      cases h
      obtain ⟨_, _, -, rfl⟩ := answer_error ha
      rintro ⟨_, _, ⟨⟩⟩
    · next dependencies ha =>
      obtain ⟨program, hp, hq⟩ := read_ok hr
      obtain ⟨text, ht⟩ := Analysis.apply_edits_ok hp hq (dependencies.map (·.id))
      rw [ht] at h
      cases h

end Project

theorem Walk.not_isEdit_of_finish {p : Project} {name : String} {budget : Nat} {w : Walk}
    {after : Graph} {e : BundleError} (h : finish p name budget w = (after, some e)) :
    ¬e.IsEdit := by
  induction budget generalizing w with
  | zero =>
    unfold finish at h
    split at h
    · cases h
    · cases h
      rintro ⟨_, _, he⟩
      cases he
    · next hz => cases hz
  | succ budget ih =>
    unfold finish at h
    split at h
    · cases h
    · next hz => cases hz
    · next hz =>
      cases hz
      split at h
      · next hl =>
        cases h
        exact Project.not_isEdit_of_load hl
      · exact ih h

theorem Graph.not_isEdit_of_addEntry {g after : Graph} {p : Project} {name : String} {path : Path}
    {e : BundleError} (h : g.addEntry p name path = (after, .error e)) : ¬e.IsEdit := by
  unfold addEntry at h
  dsimp only at h
  split at h
  · cases h
  split at h
  · next hl =>
    cases h
    exact Project.not_isEdit_of_load hl
  split at h
  · cases h
  · next hf =>
    cases h
    exact Walk.not_isEdit_of_finish hf

namespace Compilation
variable {o : Options} {t : FileTree} {e : BundleError}

theorem not_isEdit_of_chunks {p : Project} {g after : Graph} {points : List (String × Path)}
    (h : chunks o p g points = (after, .error e)) : ¬e.IsEdit := by
  induction points generalizing g with
  | nil => cases h
  | cons point points ih =>
    obtain ⟨name, entry⟩ := point
    unfold chunks at h
    split at h
    · cases h
      rintro ⟨_, _, he⟩
      cases he
    split at h
    · next ha =>
      cases h
      exact Graph.not_isEdit_of_addEntry ha
    · dsimp only at h
      split at h
      · cases h
      · exact ih h

theorem not_isEdit_of_assets {g : Graph} {before : List String} {cs : List Chunk}
    (h : assets g before cs = .error e) : ¬e.IsEdit := by
  induction cs generalizing before with
  | nil => cases h
  | cons c cs ih =>
    unfold assets at h
    split at h
    · cases h
      rintro ⟨_, _, he⟩
      cases he
    split at h
    · exact ih h
    · cases ha : assets g (c.filename :: before) cs with
      | error d =>
        obtain rfl : d = e := by simpa [ha, bind, Except.bind] using h
        exact ih ha
      | ok as => simp [ha, bind, Except.bind, pure, Except.pure] at h

theorem not_isEdit_of_build (h : (build o t).2 = .error e) : ¬e.IsEdit := by
  unfold build at h
  split at h
  · cases h
    rintro ⟨_, _, he⟩
    cases he
  split at h
  · next hc =>
    cases h
    exact not_isEdit_of_chunks hc
  split at h
  · next ha =>
    cases h
    exact not_isEdit_of_assets ha
  · cases h

/-- The edits of an analysis can be made, whatever the answers: their spans are stretches of the
text that stand apart. No pass ends with a conflict of edits. -/
theorem edits_never_conflict :
    (∀ source program analysis, Program.parse source = .ok program →
      Analysis.ofProgram program source = .ok analysis →
        (∀ r ∈ analysis.replacements, r.span.start ≤ r.span.stop ∧
          r.span.stop ≤ byteSize source.toList ∧ Boundary source.toList r.span.start ∧
          Boundary source.toList r.span.stop) ∧
        ∀ ids, ∃ text, Edit.apply (analysis.edits ids) source = .ok text) ∧
    ∀ o t path conflict, (build o t).2 ≠ .error (.edit path conflict) := by
  constructor
  · intro source program analysis h ha
    refine ⟨fun r hr => ?_, Analysis.apply_edits_ok h ha⟩
    have ht := (Analysis.tidy_replacements h ha).within r.span (List.mem_map_of_mem hr)
    exact ⟨ht.1.ordered, ht.2.2, ht.1.start, ht.1.stop⟩
  · intro o t path conflict h
    exact not_isEdit_of_build h ⟨path, conflict, rfl⟩

/-- A first line for an interpreter, and declarations without text between them that ask for
modules. -/
def exportingScript : String :=
  "#!/bin/node\nexport default f(require('a'));export const b=require('b');export{b as c}"

theorem edits_never_conflict_in_exportingScript : ∃ program analysis,
    Program.parse exportingScript = .ok program ∧
    Analysis.ofProgram program exportingScript = .ok analysis ∧
    analysis.replacements.map Replacement.span
      = [⟨12, 27⟩, ⟨37, 40⟩, ⟨43, 50⟩, ⟨71, 71⟩, ⟨66, 69⟩, ⟨71, 85⟩, ⟨0, 0⟩, ⟨0, 11⟩, ⟨85, 85⟩] ∧
    (∀ r ∈ analysis.replacements, r.span.start ≤ r.span.stop ∧
      r.span.stop ≤ byteSize exportingScript.toList ∧ Boundary exportingScript.toList r.span.start ∧
      Boundary exportingScript.toList r.span.stop) ∧
    ∀ ids, ∃ text, Edit.apply (analysis.edits ids) exportingScript = .ok text := by
  have hs : (Program.parse exportingScript).toOption.bind (fun program =>
      (Analysis.ofProgram program exportingScript).toOption.map fun analysis =>
        analysis.replacements.map Replacement.span)
      = some [⟨12, 27⟩, ⟨37, 40⟩, ⟨43, 50⟩, ⟨71, 71⟩, ⟨66, 69⟩, ⟨71, 85⟩, ⟨0, 0⟩,
          ⟨0, 11⟩, ⟨85, 85⟩] := by decide +kernel
  cases h : Program.parse exportingScript with
  | error e => simp [h, Except.toOption] at hs
  | ok program =>
    cases ha : Analysis.ofProgram program exportingScript with
    | error e => simp [h, ha, Except.toOption] at hs
    | ok analysis =>
      simp only [h, ha, Except.toOption, Option.bind_some, Option.map_some, Option.some.injEq] at hs
      obtain ⟨hr, ht⟩ := edits_never_conflict.1 _ program analysis h ha
      exact ⟨program, analysis, rfl, ha, hs, hr, ht⟩

end Compilation
end ModuleBundler
