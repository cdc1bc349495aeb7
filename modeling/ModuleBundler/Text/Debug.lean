import ModuleBundler.Text.Printable

/-! Text in quotes for reading: what cannot be shown is written by its number. -/
namespace ModuleBundler.Text

/-- A character as it is shown between quotes. -/
def shownChar (c : Char) : List Char :=
  if c = '"' then ['\\', '"']
  else if c = '\\' then ['\\', '\\']
  else if c = '\n' then ['\\', 'n']
  else if c = '\r' then ['\\', 'r']
  else if c = '\t' then ['\\', 't']
  else if c = '\x00' then ['\\', '0']
  else if isPrintable c then [c]
  else '\\' :: 'u' :: '{' :: (Nat.toDigits 16 c.toNat ++ ['}'])

/-- A text in quotes. -/
def shown (s : String) : String := String.ofList ('"' :: (s.toList.flatMap shownChar ++ ['"']))

example : shown "a\"\x01" = "\"a\\\"\\u\x7b1\x7d\"" := by decide

end ModuleBundler.Text
