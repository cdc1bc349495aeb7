import ModuleBundler.Proofs.Bundle.Loader

/-! What the function of a script returns: what the code of the entry module returns on its way, and
at the end what that module exports. -/
namespace ModuleBundler.Script

theorem returns_bareStatements (source : String) : returnsOfStmts (bareStatements source)
    = (returnsOfStmts (statements source)).map (bareExpr? .none) := by
  rw [bareStatements, ← bareStmts_eq_map, returnsOfStmts_bare]

variable (entry : Module) (modules : List Module)

/-- The function of a script returns where the code of the entry module does, outside of the
functions in that code, and then at its end. -/
theorem returns_mainStmts : returnsOfStmts (mainStmts bareStatements prelude entry modules)
    = (returnsOfStmts (statements entry.source)).map (bareExpr? .none) ++ [some moduleExports] := by
  have hp : returnsOfStmts (bareStatements prelude) = [] := by
    rw [returns_bareStatements, prelude_reads.2, List.map_nil]
  rw [← returns_bareStatements]
  simp only [mainStmts, returnsOfStmts, returnsOfStmts_append, hp]
  rfl

/-- A script always has the exports of its entry module as its value just when the code of that
module has no return statement of its own, however deep in other statements. -/
theorem returns_exports_iff :
    returnsOfStmts (mainStmts bareStatements prelude entry modules) = [some moduleExports]
      ↔ returnsOfStmts (statements entry.source) = [] := by
  rw [returns_mainStmts]
  simp

/-- A return statement is read outside of functions too. -/
example :
    let source := "if (done) \x7b return; \x7d f(() => \x7b return; \x7d)"
    (returnsOfStmts (statements source)).length = 1 := by decide +kernel

end ModuleBundler.Script
