import ModuleBundler.Bundle.Script
import ModuleBundler.Proofs.Grammar.Yield
import ModuleBundler.Proofs.Token.Source
import ModuleBundler.Proofs.Token.Spelling

/-! The tokens of the script of a chunk: those of its own lines, and in between those of the source
texts, which start on lines of their own. -/
namespace ModuleBundler.Script
open Token

/-! ## The lines of the script -/

def headText : String := "(() => \x7b\n  var __tinypack_modules__ = \x7b"
def functionText : String := ": (function (module, exports, require) \x7b"
def functionEndText : String := "    \x7d),"
def tableEndText : String := "  \x7d;"
def moduleText : String := "  var module = (__tinypack_cache__["
def objectText : String := "] = \x7b exports: \x7b\x7d \x7d);"
def exportsText : String := "  var exports = module.exports;"
def returnText : String := "  return module.exports;"
def callText : String := "\x7d)();"

/-- The text between the table of modules and the code of the entry module. -/
def prelude : String := "\n".intercalate runtime

/-- The text after the table of modules. -/
def bodyText (entry : Module) : List Char :=
  tableEndText.toList ++ '\n' :: (prelude.toList ++ '\n' :: (moduleText.toList
    ++ (Text.quoted entry.id.toList ++ (objectText.toList ++ '\n' :: (exportsText.toList
      ++ '\n' :: (entry.source.toList ++ '\n' :: (returnText.toList
        ++ '\n' :: (callText.toList ++ ['\n']))))))))

theorem join_lines (l : String) (ls : List String) :
    (String.join ((l :: ls).map (· ++ "\n"))).toList
      = ("\n".intercalate (l :: ls)).toList ++ ['\n'] := by
  have hn : "\n".toList = ['\n'] := by decide
  rw [String.toList_join, String.toList_intercalate, hn]
  induction ls generalizing l with
  | nil => simp [hn]
  | cons l' ls ih =>
    rw [List.map_cons, List.flatMap_cons, ih, List.map_cons, List.map_cons, List.map_cons,
      List.intercalate_cons_cons, String.toList_append, hn]
    simp

theorem loader_toList (m : Module) : (loader m).toList = "    ".toList ++ (Text.quoted m.id.toList
    ++ (functionText.toList ++ '\n' :: (m.source.toList ++ '\n' :: (functionEndText.toList
      ++ ['\n'])))) := by
  have hfirst : ": (function (module, exports, require) \x7b\n".toList
      = functionText.toList ++ ['\n'] := by decide
  have hlast : "\n    \x7d),\n".toList = '\n' :: (functionEndText.toList ++ ['\n']) := by
    decide
  generalize functionText.toList = first, functionEndText.toList = last at *
  generalize hspace : "    ".toList = space
  simp only [loader, Text.quote, String.toList_append, hfirst, hlast, hspace, String.toList_ofList,
    List.append_assoc, List.cons_append, List.nil_append]

theorem render_toList (entry : Module) (modules : List Module) :
    (render entry modules).toList = headText.toList
      ++ '\n' :: ((modules.map loader).flatMap String.toList ++ bodyText entry) := by
  have hhead : "(() => \x7b\n  var __tinypack_modules__ = \x7b\n".toList
      = headText.toList ++ ['\n'] := by decide
  have htable : "  \x7d;\n".toList = tableEndText.toList ++ ['\n'] := by decide
  have hmodule : "  var module = (__tinypack_cache__[".toList = moduleText.toList := rfl
  have hobject : "] = \x7b exports: \x7b\x7d \x7d);\n  var exports = module.exports;\n".toList
      = objectText.toList ++ '\n' :: (exportsText.toList ++ ['\n']) := by decide
  have hlast : "\n  return module.exports;\n\x7d)();\n".toList
      = '\n' :: (returnText.toList ++ '\n' :: (callText.toList ++ ['\n'])) := by decide
  have hruntime : (String.join (runtime.map (· ++ "\n"))).toList = prelude.toList ++ ['\n'] :=
    join_lines _ _
  unfold render
  simp only [String.toList_append]
  rw [hhead, htable, hruntime, hmodule, hobject, hlast, String.toList_join, Text.quote, bodyText,
    String.toList_ofList]
  -- These are no definitional steps, so that nothing looks into the lines.
  have hline (x y : List Char) : '\n' :: x ++ y = '\n' :: (x ++ y) := List.cons_append
  have hend (y : List Char) : [] ++ y = y := List.nil_append y
  simp only [List.append_assoc, hline, hend]

/-! ## Their tokens -/

/-- The tokens of a source text without the end mark. -/
def code (source : String) : List Token := (tokenize source).dropLast

/-- The start of the script, up to the first entry of the table. -/
def head : List Token :=
  [mark .lParen, mark .lParen, mark .rParen, mark .fatArrow, mark .lBrace]
    ++ startLine [word .varKw, name "__tinypack_modules__", mark .eq, mark .lBrace]

/-- The start of the function of a module, after its name. -/
def functionHead : List Token :=
  [mark .colon, mark .lParen, word .functionKw, mark .lParen]
    ++ Grammar.nameList ["module", "exports", "require"] ++ [mark .rParen, mark .lBrace]

/-- The entries of the table, and what comes after them. -/
def table (rest : List Token) : List Module → List Token
  | [] => rest
  | m :: ms => key m.id :: (functionHead ++ startLine (code m.source
      ++ startLine ([mark .rBrace, mark .rParen, mark .comma] ++ table rest ms)))

/-- The start of the variable for the entry module, up to the name of the module. -/
def moduleStart : List Token :=
  [word .varKw, name "module", mark .eq, mark .lParen, name "__tinypack_cache__", mark .lBracket]

/-- The value of the variable for the entry module, after the name of the module. -/
def moduleEnd : List Token :=
  [mark .rBracket, mark .eq, mark .lBrace, name "exports", mark .colon, mark .lBrace, mark .rBrace,
    mark .rBrace, mark .rParen, mark .semicolon]

/-- The variable for the entry module in the store of modules. -/
def moduleLine (id : String) : List Token :=
  moduleStart ++ ⟨.stringLiteral, .nowhere, id, false⟩ :: moduleEnd

/-- The variable for what the entry module exports. -/
def exportsLine : List Token :=
  [word .varKw, name "exports", mark .eq, name "module", mark .dot, name "exports",
    mark .semicolon]

/-- The end of the function of the script, after the code of the entry module. -/
def returnLine : List Token :=
  [word .returnKw, name "module", mark .dot, name "exports", mark .semicolon]

/-- The end of the script. -/
def call : List Token :=
  startLine ([mark .rBrace, mark .rParen, mark .lParen, mark .rParen, mark .semicolon]
    ++ startLine [⟨.eof, .nowhere, "", false⟩])

/-- The tokens after the table of modules; some text stands before the code of the entry module. -/
def body (before : String) (entry : Module) : List Token :=
  startLine ([mark .rBrace, mark .semicolon] ++ startLine (code before
    ++ startLine (moduleLine entry.id ++ startLine (exportsLine
      ++ startLine (code entry.source ++ startLine (returnLine ++ call))))))

/-- The tokens of the script. -/
def tokens (entry : Module) (modules : List Module) : List Token :=
  head ++ table (body prelude entry) modules

/-! ## Spelling -/

/-- The text has no first line that is skipped, and its brackets are balanced. -/
structure Balanced (source : String) : Prop where
  hashbang : hashbang source.toList = []
  run : Bracket.run [] (code source) = some []

theorem spells_code {source : String} (h : Balanced source) {base : List Brace} {x : List Char}
    {ts : List Token} (ht : ∀ ends, Spells base ends ('\n' :: x) ts) :
    Spells base false ('\n' :: (source.toList ++ '\n' :: x)) (startLine (code source ++ ts)) :=
  .newline (.source h.hashbang h.run ht)

theorem spells_table {modules : List Module} {base : List Brace} {x : List Char} {ts : List Token}
    (hm : ∀ m ∈ modules, Balanced m.source) (ht : Spells base false ('\n' :: x) ts) :
    Spells base false ('\n' :: ((modules.map loader).flatMap String.toList ++ x))
      (table ts modules) := by
  induction modules with
  | nil => exact ht
  | cons m ms ih =>
    have hend (ends : Bool) : Fixed ends [.curly, .paren] functionEndText.toList
        [mark .rBrace, mark .rParen, mark .comma] [] := by
      cases ends <;> decide +kernel
    have hhead : Fixed true [] functionText.toList functionHead [.curly, .paren] := by
      decide +kernel
    have hrest := ih fun m hm' => hm m (List.mem_cons_of_mem _ hm')
    have hcode := spells_code (hm m List.mem_cons_self) fun ends =>
      Spells.newline (Spells.fixed Text.stops_newline (hend ends) hrest)
    have hfunction := Spells.fixed Text.stops_newline hhead hcode
    have hfour : "    ".toList = List.replicate 4 ' ' := by decide +kernel
    have hspaces : ∀ c ∈ "    ".toList, c = ' ' := fun c hc =>
      List.eq_of_mem_replicate (hfour ▸ hc)
    rw [List.map_cons, List.flatMap_cons, loader_toList]
    simp only [List.append_assoc, List.cons_append, List.nil_append]
    exact .newline (.quoted hspaces m.id hfunction)

theorem spells_call (ends : Bool) : Spells [.block] ends
    ('\n' :: (returnText.toList ++ '\n' :: (callText.toList ++ ['\n'])))
    (startLine (returnLine ++ call)) := by
  have hreturn : Fixed ends [] returnText.toList returnLine [] := by
    cases ends <;> decide +kernel
  have hcall : Fixed false [.curly, .paren] callText.toList
      [mark .rBrace, mark .rParen, mark .lParen, mark .rParen, mark .semicolon] [] := by
    decide +kernel
  have hend : Spells [] false ['\n'] (startLine [⟨.eof, .nowhere, "", false⟩]) := .newline .nil
  have hlast : Spells [.block] false (callText.toList ++ ['\n']) _ :=
    Spells.fixed Text.stops_newline hcall hend
  exact .newline (.fixed Text.stops_newline hreturn hlast.newline)

theorem spells_body {entry : Module} (hp : Balanced prelude) (he : Balanced entry.source) :
    Spells [.block, .block] false ('\n' :: bodyText entry) (body prelude entry) := by
  have htable : Fixed false [.curly] tableEndText.toList [mark .rBrace, mark .semicolon] [] := by
    decide +kernel
  have hmodule (ends : Bool) : Fixed ends [] moduleText.toList moduleStart [.square, .paren] := by
    cases ends <;> decide +kernel
  have hobject : Fixed true [.square, .paren] objectText.toList moduleEnd [] := by decide +kernel
  have hexports : Fixed false [] exportsText.toList exportsLine [] := by decide +kernel
  have hentry := Spells.newline (.fixed Text.stops_newline hexports (spells_code he spells_call))
  have hline (ends : Bool) := Spells.newline (.fixed Text.stops_quote (hmodule ends)
    (.quoted (g := []) (by simp) entry.id (.fixed Text.stops_newline hobject hentry)))
  exact .newline (.fixed Text.stops_newline htable (spells_code hp hline))

/-- The script of a chunk is spelled with its tokens. -/
theorem spells_render {entry : Module} {modules : List Module} (hp : Balanced prelude)
    (he : Balanced entry.source) (hm : ∀ m ∈ modules, Balanced m.source) :
    Spells [] false (render entry modules).toList (tokens entry modules) := by
  have hhead : Fixed false [] headText.toList head [.curly, .curly, .paren] := by decide +kernel
  rw [render_toList]
  exact .fixed Text.stops_newline hhead (spells_table hm (spells_body hp he))

end ModuleBundler.Script
