import Mathlib
import ModuleBundler.Proofs.Bundle.Spelled
import ModuleBundler.Proofs.Grammar.Enclosed
import ModuleBundler.Proofs.Tree.Returns

/-! What the script of a chunk is read as: each module is the body of a function of its own, and
the code of the entry module stands at the end of the function around them. -/
namespace ModuleBundler
open ModuleBundler.Parser

/-- The text is a script: it is read without errors, imports and exports nothing and has no first
line that names an interpreter. -/
structure IsScript (source : String) : Prop where
  read : ∃ p, Program.parse source = .ok p ∧ p.hasModuleSyntax = false
  start : ['#', '!'].isPrefixOf source.toList = false

theorem isScript_iff {source : String} :
    IsScript source ↔ (Program.parse source).toOption.any (!·.hasModuleSyntax) = true
      ∧ ['#', '!'].isPrefixOf source.toList = false := by
  constructor
  · rintro ⟨⟨p, hp, h⟩, hs⟩
    exact ⟨by simp [hp, h, Except.toOption], hs⟩
  · rintro ⟨h, hs⟩
    refine ⟨?_, hs⟩
    cases hp : Program.parse source with
    | error => simp [hp, Except.toOption] at h
    | ok p => exact ⟨p, rfl, by simpa [hp, Except.toOption] using h⟩

instance (source : String) : Decidable (IsScript source) := decidable_of_iff _ isScript_iff.symm

namespace Script
open Token Grammar

/-- The statements of a source text; there are none if it cannot be read. -/
def statements (source : String) : List Stmt :=
  match Program.parse source with
  | .ok p => p.statements
  | .error _ => []

/-! ## Source texts inside the script -/

theorem exists_startLine (ts : List Token) (u : Token) (us : List Token) :
    ∃ v vs, startLine (ts ++ u :: us) = v :: vs := by
  cases ts <;> exact ⟨_, _, rfl⟩

theorem exists_table (t : Token) (ts : List Token) (ms : List Module) :
    ∃ u us, table (t :: ts) ms = u :: us := by
  cases ms <;> exact ⟨_, _, rfl⟩

theorem readAs_code {source : String} (h : IsScript source) :
    ∃ p, ReadAs (code source) p ∧ p.statements = statements source := by
  obtain ⟨p, hr, hp⟩ := h.read
  have hl := Scanner.getLast?_tokens (Scanner.start source.toList)
    (source.toList.drop (hashbang source.toList).length)
  rw [← tokenize_eq] at hl
  obtain ⟨e, he, hk⟩ := Option.map_eq_some_iff.mp hl
  obtain ⟨ts, ht⟩ := List.getLast?_eq_some_iff.mp he
  refine ⟨p, ⟨⟨e, hk, ?_⟩, hp, Scanner.kind_ne_eof _ _⟩, by rw [statements, hr]⟩
  rw [code, ht, List.dropLast_concat, ← ht]
  exact hr

theorem balanced {source : String} (h : IsScript source) : Balanced source := by
  obtain ⟨p, hp, -⟩ := readAs_code h
  exact ⟨by rw [hashbang, h.start]; rfl, hp.run⟩

/-- The statements of a source text are read among those of the script. -/
theorem statements_code {source : String} (h : IsScript source) {k : Nat}
    (hk : (code source).length ≤ k) (q : Sequel) (previous : Token) :
    ∃ last, ∀ read,
      (nested (k + 1)).statements read true
          (.on previous (startLine (code source ++ q.first :: q.rest)))
        = (nested (k + 1)).statements ((statements source).reverse ++ read) true
          (.on last (q.first :: q.rest)) := by
  obtain ⟨p, hp, hs⟩ := readAs_code h
  rw [← hs]
  exact hp.statements_within hk previous

/-! ## The table of modules -/

/-- The function of a module with its statements. -/
def functionOf (sts : List Stmt) : Expr :=
  ⟨.nowhere, .paren ⟨.nowhere, .functionExpr ⟨none,
    ["module", "exports", "require"].map fun n => ⟨namePattern n, false⟩, ⟨.nowhere, sts⟩, false,
    false⟩⟩⟩

/-- The entry of a module in the table: its name and its function. -/
def entryOf (id : String) (sts : List Stmt) : ObjectMember :=
  .property (.string id) (functionOf sts) false

theorem yields_entry {source id : String} {k : Nat} {us : List Token} (h : IsScript source)
    (hk : (code source).length ≤ k) :
    Yields (nested (k + 3)).objectMember
      (key id :: (functionHead ++ startLine (code source
        ++ startLine (mark .rBrace :: mark .rParen :: mark .comma :: us))))
      (entryOf id (statements source)) (mark .comma :: us) := by
  let q : Sequel := ⟨{ mark .rBrace with newlineBefore := true },
    mark .rParen :: mark .comma :: us, rfl, rfl⟩
  have hread (previous : Token) : ∃ last, manyUntil .rBrace (nested (k + 1)).statement true
      (.on previous (startLine (code source ++ q.first :: q.rest)))
        = .ok (statements source) (.on last (q.first :: q.rest)) := by
    obtain ⟨last, hs⟩ := statements_code h hk q previous
    exact ⟨last, manyUntil_statements rfl (by simpa using hs [])⟩
  obtain ⟨v, vs, hv⟩ := exists_startLine (code source) q.first q.rest
  have hq : startLine (mark .rBrace :: mark .rParen :: mark .comma :: us)
    = q.first :: q.rest := rfl
  rw [hv] at hread
  rw [hq, hv]
  have hblock : Yields (nested (k + 1)).block (mark .lBrace :: v :: vs)
      ⟨.nowhere, statements source⟩ (mark .rParen :: mark .comma :: us) :=
    yields_block rfl rfl hread
  have hfunction := yields_functionExpr (yields_function ["module", "exports", "require"] hblock)
  have hparen := yields_paren (no_arrowParams (.inl rfl))
    (yields_enclosed (yields_operand (.inl rfl) hfunction) rfl (by rintro ⟨⟩))
  exact yields_property id (yields_readExpression
    (yields_operand (.inr (.inl rfl)) (yields_primary_paren hparen)) rfl 1)

theorem repeats_table {t : Token} {ts : List Token} {ms : List Module} {k : Nat}
    (ht : t.kind = .punct .rBrace) (hm : ∀ m ∈ ms, IsScript m.source)
    (hk : ∀ m ∈ ms, (code m.source).length ≤ k) :
    Repeats .rBrace (do let m ← (nested (k + 3)).objectMember; separator .rBrace; return m)
      (table (t :: ts) ms) (ms.map fun m => entryOf m.id (statements m.source)) (t :: ts) := by
  induction ms with
  | nil => exact .nil ht
  | cons m ms ih =>
    have hrest := ih (fun m h => hm m (List.mem_cons_of_mem _ h))
      fun m h => hk m (List.mem_cons_of_mem _ h)
    obtain ⟨u, us, hu⟩ := exists_table t ts ms
    have hentry : Yields (nested (k + 3)).objectMember
        (key m.id :: (functionHead ++ startLine (code m.source
          ++ startLine (mark .rBrace :: mark .rParen :: mark .comma :: u :: us))))
        (entryOf m.id (statements m.source)) (mark .comma :: u :: us) :=
      yields_entry (hm m List.mem_cons_self) (hk m List.mem_cons_self)
    have hcomma : Yields (separator .rBrace) (mark .comma :: u :: us) () (u :: us) :=
      Yields.separator_comma (by rintro ⟨⟩)
    rw [hu] at hrest
    rw [table, hu]
    refine .cons (by rintro ⟨⟩) (by rintro ⟨⟩) (hentry.bind (hcomma.bind .pure)) ?_ hrest
    simp only [List.length_append, length_startLine, List.length_cons]
    omega

theorem length_le_table (ts : List Token) (ms : List Module) :
    ts.length ≤ (table ts ms).length ∧
      ∀ m ∈ ms, (code m.source).length + ts.length ≤ (table ts ms).length := by
  induction ms with
  | nil => exact ⟨Nat.le_refl _, by simp⟩
  | cons m ms ih =>
    simp only [table, List.length_cons, List.length_append, length_startLine]
    refine ⟨by omega, fun m' hm => ?_⟩
    rcases List.mem_cons.mp hm with rfl | hm
    · omega
    · have := ih.2 m' hm
      omega

/-- A variable and its value. -/
def varStmt (name : String) (value : Expr) : Stmt :=
  ⟨.nowhere, .decl (.vars .varVar [⟨namePattern name, some value⟩])⟩

/-- The variable for the table of modules. -/
def tableStmt (members : List ObjectMember) : Stmt :=
  varStmt "__tinypack_modules__" ⟨.nowhere, .object members⟩

theorem begins_tableStmt {v t u : Token} {us : List Token} {ms : List Module} {k : Nat}
    (hv : v.kind = .keyword .varKw) (hs : v.span = .nowhere) (ht : t.kind = .punct .rBrace)
    (hs' : t.span = .nowhere) (hm : ∀ m ∈ ms, IsScript m.source)
    (hk : ∀ m ∈ ms, (code m.source).length ≤ k) :
    Begins (nested (k + 5)).statement (v :: name "__tinypack_modules__" :: mark .eq :: mark .lBrace
        :: table (t :: mark .semicolon :: u :: us) ms)
      (tableStmt (ms.map fun m => entryOf m.id (statements m.source))) (u :: us) := by
  obtain ⟨w, ws, hw⟩ := exists_table t (mark .semicolon :: u :: us) ms
  have htable : Repeats .rBrace
      (do let m ← (nested (k + 3)).objectMember; separator .rBrace; return m) (w :: ws)
      (ms.map fun m => entryOf m.id (statements m.source)) (t :: mark .semicolon :: u :: us) :=
    hw ▸ repeats_table ht hm hk
  rw [hw]
  exact begins_var _ hv hs (yields_readExpression
    (yields_operand (.inr (.inr (.inl rfl))) (yields_object ht hs' htable)) rfl 1)

/-! ## The function of the script -/

/-- What a module exports. -/
def moduleExports : Expr :=
  ⟨.nowhere, .member false ⟨.nowhere, .ident "module"⟩ ⟨"exports", .nowhere⟩⟩

/-- The variable for the entry module, which is stored under its name. -/
def moduleStmt (id : String) : Stmt :=
  varStmt "module" ⟨.nowhere, .paren ⟨.nowhere, .assignment .assign
    ⟨.nowhere, .index false ⟨.nowhere, .ident "__tinypack_cache__"⟩ ⟨.nowhere, .string id⟩⟩
    ⟨.nowhere, .object [.property (.name ⟨"exports", .nowhere⟩) ⟨.nowhere, .object []⟩ false]⟩⟩⟩

def exportsStmt : Stmt := varStmt "exports" moduleExports

def returnStmt : Stmt := ⟨.nowhere, .returnStmt (some moduleExports)⟩

theorem readAs_moduleLine (id : String) :
    ReadAs (moduleLine id) ⟨.nowhere, [⟨.nowhere, .stmt (moduleStmt id)⟩]⟩ where
  read := ⟨⟨.eof, .nowhere, "", false⟩, rfl, by cbv⟩
  plain := rfl
  kinds := by simp [moduleLine, moduleStart, moduleEnd, mark, word, name]

theorem readAs_returnLine : ReadAs returnLine ⟨.nowhere, [⟨.nowhere, .stmt returnStmt⟩]⟩ where
  read := ⟨⟨.eof, .nowhere, "", false⟩, rfl, by cbv⟩
  plain := rfl
  kinds := by decide

/-- The statements of the function of the script, from those of the source texts: the table of
modules, the text before the code of the entry module, and that code. -/
def mainStmts (read : String → List Stmt) (before : String) (entry : Module)
    (modules : List Module) : List Stmt :=
  tableStmt (modules.map fun m => entryOf m.id (read m.source))
    :: (read before ++ (moduleStmt entry.id :: exportsStmt :: (read entry.source ++ [returnStmt])))

/-- The next line after some tokens. -/
def nextLine (t : Token) (ts : List Token) (h : t.kind.follows = true) : Sequel :=
  ⟨{ t with newlineBefore := true }, ts, rfl, h⟩

theorem statements_main {before : String} {entry : Module} {ms : List Module} {k : Nat}
    (hb : IsScript before)
    (he : IsScript entry.source) (hm : ∀ m ∈ ms, IsScript m.source)
    (hkb : (code before).length ≤ k) (hke : (code entry.source).length ≤ k)
    (hk : ∀ m ∈ ms, (code m.source).length ≤ k) (hl : 17 ≤ k) (previous : Token) :
    ∃ last, (nested (k + 5)).statements [] true (.on previous
        ({ word .varKw with newlineBefore := true } :: name "__tinypack_modules__" :: mark .eq
          :: mark .lBrace :: table (body before entry) ms))
      = (nested (k + 5)).statements (mainStmts statements before entry ms).reverse true
        (.on last call) := by
  -- What comes after the code of the entry module, after its first line and after the prelude.
  let final := nextLine (word .returnKw) (returnLine.tail ++ call) rfl
  let entryLines := startLine (code entry.source ++ final.first :: final.rest)
  let second := nextLine (word .varKw) (exportsLine.tail ++ entryLines) rfl
  let first := nextLine (word .varKw)
    ((moduleLine entry.id).tail ++ second.first :: second.rest) rfl
  obtain ⟨u, us, hu⟩ : ∃ u us, entryLines = u :: us :=
    exists_startLine (code entry.source) final.first final.rest
  obtain ⟨v, vs, hv⟩ := exists_startLine (code before) first.first first.rest
  have hbody : body before entry = { mark .rBrace with newlineBefore := true } :: mark .semicolon
    :: startLine (code before ++ first.first :: first.rest) := rfl
  have hsecond : second.first :: second.rest = { word .varKw with newlineBefore := true }
    :: name "exports" :: mark .eq :: name "module" :: mark .dot :: name "exports"
    :: mark .semicolon :: entryLines := rfl
  have hexports : Begins (nested (k + 5)).statement (second.first :: second.rest) exportsStmt
      (u :: us) := by
    rw [hsecond, hu]
    exact begins_var _ rfl rfl (yields_member _ rfl)
  have htable : Begins (nested (k + 5)).statement
      ({ word .varKw with newlineBefore := true } :: name "__tinypack_modules__" :: mark .eq
        :: mark .lBrace :: table
          ({ mark .rBrace with newlineBefore := true } :: mark .semicolon :: v :: vs) ms)
      (tableStmt (ms.map fun m => entryOf m.id (statements m.source))) (v :: vs) :=
    begins_tableStmt rfl rfl rfl rfl hm hk
  rw [hbody, hv]
  have hlt : vs.length < (name "__tinypack_modules__" :: mark .eq :: mark .lBrace :: table
      ({ mark .rBrace with newlineBefore := true } :: mark .semicolon :: v :: vs) ms).length := by
    have := (length_le_table ({ mark .rBrace with newlineBefore := true } :: mark .semicolon
      :: v :: vs) ms).1
    simp only [List.length_cons] at this ⊢
    omega
  have hlt' : us.length < second.rest.length := by
    have := congrArg List.length hu
    simp only [second, nextLine, List.length_append, List.length_cons] at this ⊢
    omega
  obtain ⟨t₀, h₀⟩ := statements_begins htable (by rintro ⟨⟩) (by rintro ⟨⟩) hlt previous
  obtain ⟨t₁, h₁⟩ := statements_code hb (k := k + 4) (by omega) first t₀
  obtain ⟨t₂, h₂⟩ := (readAs_moduleLine entry.id).statements_within (q := second) (k := k + 4)
    (by simp [moduleLine, moduleStart, moduleEnd]; omega) t₁
  obtain ⟨t₃, h₃⟩ := statements_begins hexports (by rintro ⟨⟩) (by rintro ⟨⟩) hlt' t₂
  obtain ⟨t₄, h₄⟩ := statements_code he (k := k + 4) (by omega) final t₃
  obtain ⟨t₅, h₅⟩ := readAs_returnLine.statements_within
    (q := nextLine (mark .rBrace) call.tail rfl) (k := k + 4) (by simp [returnLine]; omega) t₄
  have hread : (mainStmts statements before entry ms).reverse
      = [returnStmt] ++ ((statements entry.source).reverse ++ exportsStmt :: ([moduleStmt entry.id]
        ++ ((statements before).reverse
          ++ [tableStmt (ms.map fun m => entryOf m.id (statements m.source))]))) := by
    simp [mainStmts]
  refine ⟨t₅, (h₀ []).trans ?_⟩
  rw [hread, ← hv, h₁]
  refine (h₂ _).trans ?_
  rw [h₃, ← hu, h₄]
  exact h₅ _

/-- The statement of the script: the call of a function with some statements. -/
def callStmt (sts : List Stmt) : Stmt :=
  ⟨.nowhere, .expr ⟨.nowhere, .call false ⟨.nowhere, .paren ⟨.nowhere,
    .arrowBlock false [] ⟨.nowhere, sts⟩⟩⟩ []⟩⟩

/-- The end mark of the script. -/
def endMark : Token := ⟨.eof, .nowhere, "", true⟩

theorem yields_callStmt {before : String} {entry : Module} {ms : List Module} {k : Nat}
    (hb : IsScript before) (he : IsScript entry.source) (hm : ∀ m ∈ ms, IsScript m.source)
    (hkb : (code before).length ≤ k) (hke : (code entry.source).length ≤ k)
    (hk : ∀ m ∈ ms, (code m.source).length ≤ k) (hl : 17 ≤ k) :
    Yields (nested (k + 6)).item (head ++ table (body before entry) ms)
      ⟨.nowhere, .stmt (callStmt (mainStmts statements before entry ms))⟩ [endMark] := by
  have hread (previous : Token) : ∃ last, manyUntil .rBrace (nested (k + 5)).statement true
      (.on previous ({ word .varKw with newlineBefore := true } :: name "__tinypack_modules__"
        :: mark .eq :: mark .lBrace :: table (body before entry) ms))
      = .ok (mainStmts statements before entry ms) (.on last call) := by
    obtain ⟨last, h⟩ := statements_main hb he hm hkb hke hk hl previous
    exact ⟨last, manyUntil_statements rfl h⟩
  have hblock : Yields (nested (k + 5)).block (mark .lBrace
      :: { word .varKw with newlineBefore := true } :: name "__tinypack_modules__" :: mark .eq
      :: mark .lBrace :: table (body before entry) ms)
      ⟨.nowhere, mainStmts statements before entry ms⟩
      [mark .rParen, mark .lParen, mark .rParen, mark .semicolon, endMark] :=
    yields_block rfl rfl hread
  have harrow := yields_operand (.inr (.inl rfl)) (yields_primary_paren (yields_arrow hblock))
  have hcallee := yields_operand (.inr (.inl rfl)) (yields_primary_paren
    (yields_paren (no_arrowParams (.inr rfl)) (yields_enclosed harrow rfl (by rintro ⟨⟩))))
  exact yields_expressionItem rfl (by decide) (by rintro ⟨⟩) (yields_call hcallee rfl)

theorem yields_script {before : String} {entry : Module} {ms : List Module} {ts : List Token}
    (hb : IsScript before) (he : IsScript entry.source) (hm : ∀ m ∈ ms, IsScript m.source)
    (hts : head ++ table (body before entry) ms = mark .lParen :: ts) :
    Yields (nested (ts.length + 1)).item (mark .lParen :: ts)
      ⟨.nowhere, .stmt (callStmt (mainStmts statements before entry ms))⟩ [endMark] := by
  have hlen := congrArg List.length hts
  obtain ⟨hle, hk⟩ := length_le_table (body before entry) ms
  have hbody : (body before entry).length
      = (code before).length + (code entry.source).length + 37 := by
    simp [body, moduleLine, moduleStart, moduleEnd, exportsLine, returnLine, call]
    omega
  have hhead : head.length = 9 := rfl
  rw [List.length_append, List.length_cons] at hlen
  obtain ⟨k, hk'⟩ : ∃ k, ts.length = k + 5 := ⟨ts.length - 5, by omega⟩
  rw [hk', ← hts]
  exact yields_callStmt hb he hm (by omega) (by omega) (fun m h => by have := hk m h; omega)
    (by omega)

/-! ## The script without its places -/

/-- The statements of a source text without their places. -/
def bareStatements (source : String) : List Stmt := (statements source).map (Stmt.bare .none)

theorem bare_callStmt (before : String) (entry : Module) (ms : List Module) :
    (callStmt (mainStmts statements before entry ms)).bare .none
      = callStmt (mainStmts bareStatements before entry ms) := by
  simp [callStmt, mainStmts, tableStmt, varStmt, entryOf, functionOf, moduleStmt, exportsStmt,
    returnStmt, moduleExports, namePattern, bareStatements, Stmt.bare, StmtForm.bare, Expr.bare,
    ExprForm.bare, Block.bare, Decl.bare, Binding.bare, Pattern.bare, PatternForm.bare, Ident.bare,
    ObjectMember.bare, PropertyKey.bare, FunctionDef.bare, Param.bare, bareExprs, bareExpr?,
    bareMembers_eq_map, bareStmts_eq_map, bareParams_eq_map, bareBindings_eq_map, Answers.none]

/-- The text before the code of the entry module can be read, and returns nothing outside of its
functions. -/
theorem prelude_reads : IsScript prelude ∧ returnsOfStmts (statements prelude) = [] := by
  have hl : prelude.toList = "\n".toList.intercalate (runtime.map String.toList) :=
    String.toList_intercalate
  rw [← List.isEmpty_iff, isScript_iff, statements, Program.parse, tokenize, hl]
  decide +kernel

theorem isScript_prelude : IsScript prelude := prelude_reads.1

/-- The script of a chunk is one statement, the call of a function; in it each module is the body
of a function of its own under its name, and the statements of the entry module come last but for
what the function returns. -/
theorem parse_render {entry : Module} {modules : List Module} (he : IsScript entry.source)
    (hm : ∀ m ∈ modules, IsScript m.source) :
    ∃ program, Program.parse (render entry modules) = .ok program ∧
      program.bare .none = ⟨.nowhere,
        [⟨.nowhere, .stmt (callStmt (mainStmts bareStatements prelude entry modules))⟩]⟩ := by
  have hspells := spells_render (balanced isScript_prelude) (balanced he)
    fun m h => balanced (hm m h)
  have hhash : hashbang (render entry modules).toList = [] := by
    have hh : headText.toList = '(' :: headText.toList.tail := by decide
    rw [render_toList, hh]
    rfl
  have htokens : (tokenize (render entry modules)).map Token.unplaced
      = (tokens entry modules).map Token.unplaced := by
    rw [tokenize, hhash]
    exact hspells _ rfl rfl
  obtain ⟨ts, hts⟩ : ∃ ts, tokens entry modules = mark .lParen :: ts := ⟨_, rfl⟩
  rw [← bare_callStmt]
  exact Program.parse_single (by rw [htokens, hts]) rfl (by rintro ⟨⟩) (by rfl)
    (by rintro rfl; cases hts) (yields_script isScript_prelude he hm hts)

/-- A module that ends with a template and a comment. -/
def greeting : Module :=
  ⟨"0", ⟨"/greeting.js"⟩, ["main"], [], "exports.text = `Hello $\x7b'you'\x7d` // no semicolon"⟩

/-- A module that asks for another one. -/
def page : Module :=
  ⟨"1", ⟨"/page.js"⟩, ["main"], [⟨"0", ⟨"/greeting.js"⟩⟩], "show(require(\"0\").text)"⟩

theorem parse_render_page : (IsScript page.source ∧ ∀ m ∈ [page, greeting], IsScript m.source) ∧
    ∃ program, Program.parse (render page [page, greeting]) = .ok program ∧
      program.bare .none = ⟨.nowhere,
        [⟨.nowhere, .stmt (callStmt (mainStmts bareStatements prelude page [page, greeting]))⟩]⟩ :=
  ⟨by decide +kernel, parse_render (by decide +kernel) (by decide +kernel)⟩

end Script
end ModuleBundler
