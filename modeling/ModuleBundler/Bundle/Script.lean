import ModuleBundler.Graph.Basic
import ModuleBundler.Text.Quoted

/-! The script of a chunk: a function for each module, the means to call them by the names of the
modules, and the code of the entry module at the end. -/
namespace ModuleBundler.Script

/-- A part of the table of modules: a name, and the function that runs the module. -/
def loader (m : Module) : String :=
  "    " ++ Text.quote m.id ++ ": (function (module, exports, require) \x7b\n" ++ m.source
    ++ "\n    \x7d),\n"

/-- The lines between the table of modules and the code of the entry module, the same in all
scripts: they run each module once, when it is asked for the first time. -/
def runtime : List String := [
  "  var __tinypack_cache__ = \x7b\x7d;",
  "  function require(moduleId) \x7b",
  "    var cachedModule = __tinypack_cache__[moduleId];",
  "    if (cachedModule !== undefined) \x7b",
  "      return cachedModule.exports;",
  "    \x7d",
  "    if (!Object.prototype.hasOwnProperty.call(__tinypack_modules__, moduleId)) \x7b",
  "      throw new Error(\"Cannot find module '\" + moduleId + \"'\");",
  "    \x7d",
  "    var module = (__tinypack_cache__[moduleId] = \x7b exports: \x7b\x7d \x7d);",
  "    __tinypack_modules__[moduleId].call(module.exports, module, module.exports, require);",
  "    return module.exports;",
  "  \x7d"]

/-- The script that runs an entry module with the modules that it can ask for. -/
def render (entry : Module) (modules : List Module) : String :=
  "(() => \x7b\n  var __tinypack_modules__ = \x7b\n"
    ++ String.join (modules.map loader)
    ++ "  \x7d;\n"
    ++ String.join (runtime.map (· ++ "\n"))
    ++ "  var module = (__tinypack_cache__[" ++ Text.quote entry.id
    ++ "] = \x7b exports: \x7b\x7d \x7d);\n  var exports = module.exports;\n"
    ++ entry.source
    ++ "\n  return module.exports;\n\x7d)();\n"

end ModuleBundler.Script
