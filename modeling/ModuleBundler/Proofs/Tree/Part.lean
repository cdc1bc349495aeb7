import Mathlib.Data.List.Nodup
import Mathlib.Data.Prod.Basic
import ModuleBundler.Tree.Visit

/-! A module as a tree of the parts that a walk stops at: each constructor has its parts, and a
part has an address, the way to it from part to part. A walk comes upon every address once. -/
namespace ModuleBundler

/-! ## The parts next below a part -/

/-- The expression in brackets that a key may be. -/
def PropertyKey.parts : PropertyKey → List Visit
  | .computed value => [.expr value]
  | .name _ | .string _ | .number _ | .privateName _ => []

/-- The key of a member of an object literal, and its value. -/
def ObjectMember.parts : ObjectMember → List Visit
  | .property key value _ => key.parts ++ [.expr value]
  | .method key _ fn => key.parts ++ [.function fn]
  | .spread value => [.expr value]

/-- The patterns of parameters. -/
def paramParts (params : List Param) : List Visit := params.map fun p => .pattern p.pattern

/-- The statements of a block. -/
def Block.parts (b : Block) : List Visit := b.stmts.map .stmt

/-- The parameters of a function, and the statements of its body. -/
def FunctionDef.parts (fn : FunctionDef) : List Visit := paramParts fn.params ++ fn.body.parts

/-- The key of a member of a class, and what it stands for. -/
def ClassMember.parts : ClassMember → List Visit
  | .constructorDef params body => paramParts params ++ body.parts
  | .method key _ fn _ => key.parts ++ [.function fn]
  | .field key value _ => key.parts ++ value.toList.map .expr
  | .staticBlock body => body.parts

/-- What a class extends, and the parts of its members. -/
def ClassDef.parts (cls : ClassDef) : List Visit :=
  cls.base.toList.map .expr ++ cls.members.flatMap ClassMember.parts

/-- The parts of an expression. -/
def ExprForm.parts : ExprForm → List Visit
  | .number _ | .bigInt _ | .string _ | .boolean _ | .null | .regExp .. | .ident _
  | .metaProperty .. | .thisExpr | .superExpr => []
  | .binary _ left right => [.expr left, .expr right]
  | .unary _ operand | .awaitExpr operand => [.expr operand]
  | .assignment _ target value => [.expr target, .expr value]
  | .call _ callee args | .newCall callee args => .expr callee :: args.map .expr
  | .member _ base _ => [.expr base]
  | .index _ base key => [.expr base, .expr key]
  | .array elements => (elements.filterMap id).map .expr
  | .object members => members.flatMap ObjectMember.parts
  | .arrow _ params body => paramParts params ++ [.expr body]
  | .arrowBlock _ params body => paramParts params ++ body.parts
  | .functionExpr fn => [.function fn]
  | .classExpr cls => [.class cls]
  | .conditional test yes no => [.expr test, .expr yes, .expr no]
  | .template _ exprs | .sequence exprs => exprs.map .expr
  | .taggedTemplate tag _ exprs => .expr tag :: exprs.map .expr
  | .yieldExpr operand _ => operand.toList.map .expr
  | .paren inner | .spread inner => [.expr inner]

/-- The key of a property of a pattern, and the pattern for its value. -/
def PatternProperty.parts (p : PatternProperty) : List Visit := p.key.parts ++ [.pattern p.value]

/-- The parts of a pattern. -/
def PatternForm.parts : PatternForm → List Visit
  | .ident _ => []
  | .array elements rest => (elements.filterMap id ++ rest.toList).map .pattern
  | .object properties rest =>
    properties.flatMap PatternProperty.parts ++ rest.toList.map .pattern
  | .withDefault p value => [.pattern p, .expr value]
  | .target e => [.expr e]

/-- The pattern of a declared variable, and its value. -/
def Binding.parts (b : Binding) : List Visit := .pattern b.pattern :: b.value.toList.map .expr

/-- The parts of a declaration. -/
def Decl.parts : Decl → List Visit
  | .function fn => [.function fn]
  | .class cls => [.class cls]
  | .vars _ bindings => bindings.flatMap Binding.parts

/-- What a loop with a condition starts with. -/
def ForStart.parts : ForStart → List Visit
  | .nothing => []
  | .vars _ bindings => bindings.flatMap Binding.parts
  | .expr e => [.expr e]

/-- What a loop over values stores them in. -/
def ForTarget.parts : ForTarget → List Visit
  | .vars _ bindings => bindings.flatMap Binding.parts
  | .pattern p => [.pattern p]

/-- What an exception is stored in, and the statements after it. -/
def Handler.parts : Handler → List Visit
  | .nothing => []
  | .catch param body => param.toList.map .pattern ++ body.parts

/-- The test of a branch, and its statements. -/
def SwitchCase.parts (c : SwitchCase) : List Visit := c.test.toList.map .expr ++ c.body.map .stmt

/-- The parts of a statement, the test of a loop first. -/
def StmtForm.parts : StmtForm → List Visit
  | .expr e | .throwStmt e => [.expr e]
  | .decl d => [.decl d]
  | .returnStmt value => value.toList.map .expr
  | .ifStmt test yes no => .expr test :: .stmt yes :: no.toList.map .stmt
  | .forStmt start test update body =>
    start.parts ++ ((test.toList ++ update.toList).map .expr ++ [.stmt body])
  | .forIn target object body => target.parts ++ [.expr object, .stmt body]
  | .forOf _ target values body => target.parts ++ [.expr values, .stmt body]
  | .whileStmt test body | .doWhile body test => [.expr test, .stmt body]
  | .block stmts => stmts.map .stmt
  | .tryStmt body handler finalizer =>
    body.parts ++ (handler.parts ++ finalizer.toList.flatMap Block.parts)
  | .switchStmt subject cases => .expr subject :: cases.flatMap SwitchCase.parts
  | .labeled _ stmt => [.stmt stmt]
  | .breakStmt _ | .continueStmt _ | .empty | .debugger => []

/-- The part of an export declaration that is not only names. -/
def ExportDecl.parts : ExportDecl → List Visit
  | .named .. | .all .. => []
  | .defaultExpr e => [.expr e]
  | .defaultDecl _ d | .decl _ d => [.decl d]

/-- The part of a top-level item that is not only names. -/
def ItemForm.parts : ItemForm → List Visit
  | .importDecl _ => []
  | .exportDecl d => d.parts
  | .stmt s => [.stmt s]

namespace Visit

/-- The parts next below a part. -/
def parts : Visit → List Visit
  | .program p => p.items.map .item
  | .item i => i.form.parts
  | .stmt s => s.form.parts
  | .decl d => d.parts
  | .expr e => e.form.parts
  | .pattern p => p.form.parts
  | .function fn => fn.parts
  | .class cls => cls.parts

/-- The part that is found by going from part to part. -/
def at? : Visit → List Nat → Option Visit
  | v, [] => some v
  | v, i :: place => v.parts[i]?.bind (·.at? place)

/-- A part, and the parts that a walk through it comes upon. -/
def walk : Visit → List Visit
  | .program p => p.visits
  | .item i => i.visits
  | .stmt s => s.visits
  | .decl d => d.visits
  | .expr e => e.visits
  | .pattern p => p.visits
  | .function fn => fn.visits
  | .class cls => cls.visits

end Visit

/-! ## The parts of lists -/

section Lists

theorem visits_exprs (es : List Expr) : visitsOfExprs es = es.flatMap Expr.visits := by
  induction es with
  | nil => rfl
  | cons e es ih => simp [visitsOfExprs, ih]

theorem visits_elements (es : List (Option Expr)) :
    visitsOfElements es = es.flatMap visitsOfExpr? := by
  induction es with
  | nil => rfl
  | cons e es ih => simp [visitsOfElements, ih]

theorem visits_members (ms : List ObjectMember) :
    visitsOfMembers ms = ms.flatMap ObjectMember.visits := by
  induction ms with
  | nil => rfl
  | cons m ms ih => simp [visitsOfMembers, ih]

theorem visits_params (ps : List Param) : visitsOfParams ps = ps.flatMap Param.visits := by
  induction ps with
  | nil => rfl
  | cons p ps ih => simp [visitsOfParams, ih]

/-- Semicolons between the members of a class are no parts. -/
theorem visits_classMembers (ms : List (Option ClassMember)) :
    visitsOfClassMembers (ms.filterMap id)
      = ms.flatMap fun m => m.elim [] ClassMember.visits := by
  induction ms with
  | nil => rfl
  | cons m ms ih =>
    cases m with
    | none => exact ih
    | some m => exact congrArg (m.visits ++ ·) ih

theorem visits_positions (ps : List (Option Pattern)) :
    visitsOfPositions ps = ps.flatMap visitsOfPattern? := by
  induction ps with
  | nil => rfl
  | cons p ps ih => simp [visitsOfPositions, ih]

theorem visits_properties (ps : List PatternProperty) :
    visitsOfProperties ps = ps.flatMap PatternProperty.visits := by
  induction ps with
  | nil => rfl
  | cons p ps ih => simp [visitsOfProperties, ih]

theorem visits_stmts (ss : List Stmt) : visitsOfStmts ss = ss.flatMap Stmt.visits := by
  induction ss with
  | nil => rfl
  | cons s ss ih => simp [visitsOfStmts, ih]

theorem visits_bindings (bs : List Binding) :
    visitsOfBindings bs = bs.flatMap Binding.visits := by
  induction bs with
  | nil => rfl
  | cons b bs ih => simp [visitsOfBindings, ih]

theorem visits_cases (cs : List SwitchCase) :
    visitsOfCases cs = cs.flatMap SwitchCase.visits := by
  induction cs with
  | nil => rfl
  | cons c cs ih => simp [visitsOfCases, ih]

end Lists

/-! ## The walk goes from part to part -/

section Walk

theorem walk_exprs (es : List Expr) : visitsOfExprs es = (es.map .expr).flatMap Visit.walk := by
  induction es with
  | nil => rfl
  | cons e es ih => simp [visitsOfExprs, Visit.walk, ih]

theorem walk_expr? (e : Option Expr) :
    visitsOfExpr? e = (e.toList.map .expr).flatMap Visit.walk := by
  cases e <;> simp [visitsOfExpr?, Visit.walk]

theorem walk_elements (es : List (Option Expr)) :
    visitsOfElements es = ((es.filterMap id).map .expr).flatMap Visit.walk := by
  induction es with
  | nil => rfl
  | cons e es ih => cases e <;> simp [visitsOfElements, visitsOfExpr?, Visit.walk, ih]

theorem walk_params (ps : List Param) : visitsOfParams ps = (paramParts ps).flatMap Visit.walk := by
  induction ps with
  | nil => rfl
  | cons p ps ih =>
    cases p
    simp [visitsOfParams, Param.visits, paramParts, Visit.walk, ih]

theorem walk_stmts (ss : List Stmt) : visitsOfStmts ss = (ss.map .stmt).flatMap Visit.walk := by
  induction ss with
  | nil => rfl
  | cons s ss ih => simp [visitsOfStmts, Visit.walk, ih]

theorem walk_pattern? (p : Option Pattern) :
    visitsOfPattern? p = (p.toList.map .pattern).flatMap Visit.walk := by
  cases p <;> simp [visitsOfPattern?, Visit.walk]

theorem walk_positions (ps : List (Option Pattern)) :
    visitsOfPositions ps = ((ps.filterMap id).map .pattern).flatMap Visit.walk := by
  induction ps with
  | nil => rfl
  | cons p ps ih => cases p <;> simp [visitsOfPositions, visitsOfPattern?, Visit.walk, ih]

theorem Block.walk_parts (b : Block) : b.visits = b.parts.flatMap Visit.walk := by
  cases b
  exact walk_stmts _

theorem walk_block? (b : Option Block) :
    visitsOfBlock? b = (b.toList.flatMap Block.parts).flatMap Visit.walk := by
  cases b <;> simp [visitsOfBlock?, Block.walk_parts]

theorem PropertyKey.walk_parts (k : PropertyKey) : k.visits = k.parts.flatMap Visit.walk := by
  cases k <;> simp [PropertyKey.visits, PropertyKey.parts, Visit.walk]

theorem ObjectMember.walk_parts (m : ObjectMember) : m.visits = m.parts.flatMap Visit.walk := by
  cases m <;> simp [ObjectMember.visits, ObjectMember.parts, PropertyKey.walk_parts, Visit.walk]

theorem walk_members (ms : List ObjectMember) :
    visitsOfMembers ms = (ms.flatMap ObjectMember.parts).flatMap Visit.walk := by
  induction ms with
  | nil => rfl
  | cons m ms ih => simp [visitsOfMembers, ObjectMember.walk_parts, ih]

theorem ClassMember.walk_parts (m : ClassMember) : m.visits = m.parts.flatMap Visit.walk := by
  cases m <;> simp [ClassMember.visits, ClassMember.parts, PropertyKey.walk_parts, walk_params,
    Block.walk_parts, walk_expr?, Visit.walk]

theorem walk_classMembers (ms : List ClassMember) :
    visitsOfClassMembers ms = (ms.flatMap ClassMember.parts).flatMap Visit.walk := by
  induction ms with
  | nil => rfl
  | cons m ms ih => simp [visitsOfClassMembers, ClassMember.walk_parts, ih]

theorem PatternProperty.walk_parts (p : PatternProperty) :
    p.visits = p.parts.flatMap Visit.walk := by
  cases p
  simp [PatternProperty.visits, PatternProperty.parts, PropertyKey.walk_parts, Visit.walk]

theorem walk_properties (ps : List PatternProperty) :
    visitsOfProperties ps = (ps.flatMap PatternProperty.parts).flatMap Visit.walk := by
  induction ps with
  | nil => rfl
  | cons p ps ih => simp [visitsOfProperties, PatternProperty.walk_parts, ih]

theorem Binding.walk_parts (b : Binding) : b.visits = b.parts.flatMap Visit.walk := by
  cases b
  simp [Binding.visits, Binding.parts, walk_expr?, Visit.walk]

theorem walk_bindings (bs : List Binding) :
    visitsOfBindings bs = (bs.flatMap Binding.parts).flatMap Visit.walk := by
  induction bs with
  | nil => rfl
  | cons b bs ih => simp [visitsOfBindings, Binding.walk_parts, ih]

theorem ForStart.walk_parts (s : ForStart) : s.visits = s.parts.flatMap Visit.walk := by
  cases s <;> simp [ForStart.visits, ForStart.parts, walk_bindings, Visit.walk]

theorem ForTarget.walk_parts (t : ForTarget) : t.visits = t.parts.flatMap Visit.walk := by
  cases t <;> simp [ForTarget.visits, ForTarget.parts, walk_bindings, Visit.walk]

theorem Handler.walk_parts (h : Handler) : h.visits = h.parts.flatMap Visit.walk := by
  cases h <;> simp [Handler.visits, Handler.parts, walk_pattern?, Block.walk_parts]

theorem SwitchCase.walk_parts (c : SwitchCase) : c.visits = c.parts.flatMap Visit.walk := by
  cases c
  simp [SwitchCase.visits, SwitchCase.parts, walk_expr?, walk_stmts]

theorem walk_cases (cs : List SwitchCase) :
    visitsOfCases cs = (cs.flatMap SwitchCase.parts).flatMap Visit.walk := by
  induction cs with
  | nil => rfl
  | cons c cs ih => simp [visitsOfCases, SwitchCase.walk_parts, ih]

theorem ExprForm.walk_parts (f : ExprForm) : f.visits = f.parts.flatMap Visit.walk := by
  cases f <;> simp [ExprForm.visits, ExprForm.parts, walk_exprs, walk_elements, walk_members,
    walk_params, Block.walk_parts, walk_expr?, Visit.walk]

theorem PatternForm.walk_parts (f : PatternForm) : f.visits = f.parts.flatMap Visit.walk := by
  cases f <;> simp [PatternForm.visits, PatternForm.parts, walk_positions, walk_properties,
    walk_pattern?, Visit.walk]

theorem StmtForm.walk_parts (f : StmtForm) : f.visits = f.parts.flatMap Visit.walk := by
  cases f <;> simp [StmtForm.visits, StmtForm.parts, walk_expr?, ForStart.walk_parts,
    ForTarget.walk_parts, walk_stmts, Block.walk_parts, Handler.walk_parts, walk_block?,
    walk_cases, Visit.walk]
  case ifStmt test yes no => cases no <;> simp [visitsOfStmt?, Visit.walk]

theorem ItemForm.walk_parts (f : ItemForm) (span : Span) :
    Item.visits ⟨span, f⟩ = .item ⟨span, f⟩ :: f.parts.flatMap Visit.walk := by
  cases f with
  | importDecl d => rfl
  | stmt s => simp [Item.visits, ItemForm.parts, Visit.walk]
  | exportDecl d =>
    cases d <;> simp [Item.visits, ItemForm.parts, ExportDecl.parts, Visit.walk]

end Walk

namespace Visit

/-- A walk comes upon a part and then upon each part below it, with all that is below that one. -/
theorem walk_eq (v : Visit) : v.walk = v :: v.parts.flatMap walk := by
  cases v with
  | program p => simp [walk, parts, Program.visits, List.flatMap_map]
  | item i => exact i.form.walk_parts i.span
  | stmt s => cases s; simp [walk, parts, Stmt.visits, StmtForm.walk_parts]
  | decl d => cases d <;> simp [walk, parts, Decl.visits, Decl.parts, walk_bindings]
  | expr e => cases e; simp [walk, parts, Expr.visits, ExprForm.walk_parts]
  | pattern p => cases p; simp [walk, parts, Pattern.visits, PatternForm.walk_parts]
  | function fn =>
    cases fn
    simp [walk, parts, FunctionDef.visits, FunctionDef.parts, walk_params, Block.walk_parts]
  | «class» cls =>
    cases cls
    simp [walk, parts, ClassDef.visits, ClassDef.parts, walk_expr?, walk_classMembers]

theorem walk_length_lt {u v : Visit} (h : u ∈ v.parts) : u.walk.length < v.walk.length := by
  obtain ⟨before, after, hp⟩ := List.append_of_mem h
  rw [v.walk_eq, hp]
  simp only [List.flatMap_append, List.flatMap_cons, List.length_cons, List.length_append]
  omega

/-- The parts at all addresses, each with its address, in the order of the walk. -/
structure Lists (v : Visit) (l : List (List Nat × Visit)) : Prop where
  nodup : l.Nodup
  mem : ∀ place u, (place, u) ∈ l ↔ v.at? place = some u
  walk : l.map Prod.snd = v.walk

/-- Lists of parts one after the other make one list, in which the addresses of each part start
with its number. -/
theorem exists_lists_parts {parts : List Visit} (h : ∀ u ∈ parts, ∃ l, u.Lists l) (n : Nat) :
    ∃ l : List (List Nat × Visit), l.Nodup ∧
      (∀ place u, (place, u) ∈ l ↔
        ∃ i rest, place = (n + i) :: rest ∧ (parts[i]?).bind (·.at? rest) = some u) ∧
      l.map Prod.snd = parts.flatMap Visit.walk := by
  induction parts generalizing n with
  | nil => exact ⟨[], by simp⟩
  | cons v vs ih =>
    obtain ⟨first, hv⟩ := h v List.mem_cons_self
    obtain ⟨others, hnodup, hmem, hwalk⟩ := ih (fun u hu => h u (List.mem_cons_of_mem v hu)) (n + 1)
    have hmap : ∀ place u, (place, u) ∈ first.map (Prod.map (n :: ·) id) ↔
        ∃ rest, place = n :: rest ∧ v.at? rest = some u := by
      intro place u
      simp only [List.mem_map, Prod.exists, Prod.map_apply, id, Prod.mk.injEq, hv.mem]
      constructor
      · rintro ⟨rest, _, hu, rfl, rfl⟩
        exact ⟨rest, rfl, hu⟩
      · rintro ⟨rest, rfl, hu⟩
        exact ⟨rest, u, hu, rfl, rfl⟩
    refine ⟨first.map (Prod.map (n :: ·) id) ++ others, ?_, ?_, ?_⟩
    · refine List.nodup_append.mpr ⟨hv.nodup.map ?_, hnodup, ?_⟩
      · exact Function.Injective.prodMap List.cons_injective Function.injective_id
      · -- the addresses in the first part start with a smaller number
        rintro ⟨place, u⟩ hf _ ho rfl
        obtain ⟨_, rfl, -⟩ := (hmap place u).mp hf
        obtain ⟨i, _, hi, -⟩ := (hmem _ u).mp ho
        have := (List.cons.inj hi).1
        omega
    · intro place u
      rw [List.mem_append, hmap, hmem]
      constructor
      · rintro (⟨rest, rfl, hu⟩ | ⟨i, rest, rfl, hu⟩)
        · exact ⟨0, rest, rfl, hu⟩
        · exact ⟨i + 1, rest, by rw [Nat.add_right_comm, Nat.add_assoc], hu⟩
      · rintro ⟨i, rest, rfl, hu⟩
        cases i with
        | zero => exact .inl ⟨rest, rfl, hu⟩
        | succ i => exact .inr ⟨i, rest, by rw [Nat.add_right_comm, Nat.add_assoc], hu⟩
    · rw [List.map_append, List.map_map, hwalk, List.flatMap_cons, ← hv.walk]
      rfl

/-- A walk comes upon the parts at all addresses, each once. -/
theorem exists_lists (v : Visit) : ∃ l, v.Lists l := by
  obtain ⟨l, hnodup, hmem, hwalk⟩ :=
    exists_lists_parts (fun u (_ : u ∈ v.parts) => exists_lists u) 0
  simp only [Nat.zero_add] at hmem
  refine ⟨([], v) :: l, List.nodup_cons.mpr ⟨?_, hnodup⟩, ?_, ?_⟩
  · rw [hmem]
    rintro ⟨_, _, h, -⟩
    cases h
  · intro place u
    cases place with
    | nil => simp [at?, hmem, eq_comm]
    | cons i place => simp [at?, hmem]
  · rw [List.map_cons, hwalk, ← walk_eq]
termination_by v.walk.length
decreasing_by exact walk_length_lt ‹_›

end Visit
end ModuleBundler
