import ModuleBundler.Analysis.Module
import ModuleBundler.Proofs.Tree.Inner

/-! The analysis of a module without import and export declarations: one request for each call of
`require` with a fixed text, in the order of the walk. -/
namespace ModuleBundler
open ModuleBundler.Text

/-- The call of `require` that a part of a module is. -/
def Visit.requireCall? : Visit → Option RequireCall
  | .expr e => e.requireCall?
  | _ => none

def RequireCall.request? : RequireCall → Option Request
  | .static specifier span => some ⟨specifier, span⟩
  | .dynamic _ => none

def RequireCall.dynamic? : RequireCall → Option Span
  | .static .. => none
  | .dynamic span => some span

/-- The request that a part of a module makes. -/
def Visit.request? (v : Visit) : Option Request := v.requireCall?.bind RequireCall.request?

/-- The span of a call of `require` that names no module. -/
def Visit.dynamic? (v : Visit) : Option Span := v.requireCall?.bind RequireCall.dynamic?

namespace Analysis

/-- The request at an index is answered in its place. -/
def requestReplacements (first : Nat) (requests : List Request) : List Replacement :=
  requests.mapIdx fun i r => ⟨r.span, [.id (first + i)]⟩

theorem visit_eq (source : List Char) {v : Visit} (hv : ∀ i, v = .item i → i.isModuleSyntax = false)
    (d : Draft) : d.visit source v =
      { d with
        requests := d.requests ++ v.request?.toList
        replacements := d.replacements
          ++ requestReplacements d.requests.length v.request?.toList
        dynamic := d.dynamic.or v.dynamic? } := by
  cases v with
  | item item =>
    obtain ⟨span, form⟩ := item
    cases form with
    | stmt s =>
      simp [Draft.visit, Lowering.ofItem, Lowering.ofReplacements, Draft.add, Visit.request?,
        Visit.dynamic?, Visit.requireCall?, requestReplacements]
    | _ => cases hv _ rfl
  | expr e =>
    simp only [Draft.visit, Visit.request?, Visit.dynamic?, Visit.requireCall?]
    cases e.requireCall? with
    | none => simp [requestReplacements]
    | some call =>
      cases call <;>
        simp [RequireCall.request?, RequireCall.dynamic?, requestReplacements, Draft.add]
  | _ => simp [Draft.visit, Visit.request?, Visit.dynamic?, Visit.requireCall?, requestReplacements]

theorem foldl_visit (source : List Char) {vs : List Visit}
    (hv : ∀ i, .item i ∈ vs → i.isModuleSyntax = false) (d : Draft) :
    vs.foldl (Draft.visit source) d =
      { d with
        requests := d.requests ++ vs.filterMap Visit.request?
        replacements := d.replacements
          ++ requestReplacements d.requests.length (vs.filterMap Visit.request?)
        dynamic := d.dynamic.or (vs.findSome? Visit.dynamic?) } := by
  induction vs generalizing d with
  | nil => simp [requestReplacements]
  | cons v vs ih =>
    rw [List.foldl_cons, ih fun i hi => hv i (List.mem_cons_of_mem v hi)]
    have hd : d.visit source v =
        { d with
          requests := d.requests ++ v.request?.toList
          replacements := d.replacements
            ++ requestReplacements d.requests.length v.request?.toList
          dynamic := d.dynamic.or v.dynamic? } :=
      visit_eq source (fun i hi => hv i (by simp [hi])) d
    rw [hd]
    cases hr : v.request? with
    | none =>
      cases hs : v.dynamic? <;> simp [hr, hs, requestReplacements]
    | some r =>
      cases hs : v.dynamic? <;>
        simp [hr, hs, requestReplacements, List.mapIdx_cons, Nat.add_assoc, Nat.add_comm 1]

/-- A module without import and export declarations. -/
theorem ofProgram_ok {program : Program} {source : String} {analysis : Analysis}
    (hp : program.hasModuleSyntax = false) :
    ofProgram program source = .ok analysis ↔
      program.visits.findSome? Visit.dynamic? = none ∧
        analysis = ⟨program.visits.filterMap Visit.request?,
          requestReplacements 0 (program.visits.filterMap Visit.request?)
            ++ hashbangReplacement source.toList⟩ := by
  have hd := foldl_visit source.toList
    (fun i hi => Program.isModuleSyntax_of_visits hp hi) Draft.empty
  simp only [Draft.empty, List.nil_append, List.length_nil, Option.none_or] at hd
  simp only [ofProgram, draft, Draft.empty, hp, Bool.false_eq_true, if_false, hd]
  cases program.visits.findSome? Visit.dynamic? with
  | some s => simp
  | none => simp [hoistedReplacement, trailerReplacement, eq_comm]

end Analysis
end ModuleBundler
