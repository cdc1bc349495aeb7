import ModuleBundler.Text.Quoted

/-! Structured data, and its text with a line for each part. -/
namespace ModuleBundler

/-- A value; the members of an object keep their order, and a key may come again. -/
inductive Json where
  | null
  | bool (value : Bool)
  | number (text : String)
  | string (text : String)
  | array (items : List Json)
  | object (members : List (String × Json))
  deriving Repr

namespace Json

/-- Writes parts, each on a line of its own, between brackets; no part needs no line. -/
def writeLines (opening closing : String) (indent : Nat) (parts : List String) : String :=
  if parts.isEmpty then opening ++ closing
  else
    let line (depth : Nat) := "\n" ++ String.ofList (List.replicate (2 * depth) ' ')
    opening ++ line (indent + 1) ++ String.intercalate ("," ++ line (indent + 1)) parts
      ++ line indent ++ closing

mutual
/-- Writes a value that stands at a depth. -/
def writeAt (indent : Nat) : Json → String
  | null => "null"
  | bool value => if value then "true" else "false"
  | number text => text
  | string text => Text.quote text
  | array items => writeLines "[" "]" indent (writeItems (indent + 1) items)
  | object members => writeLines "\x7b" "\x7d" indent (writeMembers (indent + 1) members)
/-- Writes the items of an array. -/
def writeItems (indent : Nat) : List Json → List String
  | [] => []
  | item :: items => writeAt indent item :: writeItems indent items
/-- Writes the members of an object. -/
def writeMembers (indent : Nat) : List (String × Json) → List String
  | [] => []
  | (key, value) :: members =>
    (Text.quote key ++ ": " ++ writeAt indent value) :: writeMembers indent members
end

/-- The text of a value, with two blanks before a line for each level that it is in. -/
def pretty (j : Json) : String := j.writeAt 0

/-- A text, which may be missing or null. -/
def text? : Option Json → Option (Option String)
  | none | some .null => some none
  | some (.string s) => some (some s)
  | _ => none

example : pretty (.object [("a", .array [.null, .string "b"]), ("c", .object [])])
    = "\x7b\n  \"a\": [\n    null,\n    \"b\"\n  ],\n  \"c\": \x7b\x7d\n\x7d" := by decide

end Json

/-- How texts are read that hold structured data. -/
structure JsonReader where
  /-- Reads a text that holds one value. -/
  read : String → Option Json
  /-- What the description of a package says about its main file, or why it is none. -/
  packageMain : String → Except String (Option String)

end ModuleBundler
