/-! Text between double quotes, with escapes for what may not stand there. -/
namespace ModuleBundler.Text

/-- A hexadecimal digit. -/
def hexDigit (n : Nat) : Char := "0123456789abcdef".toList.getD n '0'

/-- A character as it stands between double quotes: the quote, the backslash and the control
characters are escaped, five of the last by a letter and the others by their number. -/
def quoteChar (c : Char) : List Char :=
  if c = '"' then ['\\', '"']
  else if c = '\\' then ['\\', '\\']
  else if c = '\x08' then ['\\', 'b']
  else if c = '\x0c' then ['\\', 'f']
  else if c = '\n' then ['\\', 'n']
  else if c = '\r' then ['\\', 'r']
  else if c = '\t' then ['\\', 't']
  else if c.toNat < 0x20 then
    ['\\', 'u', '0', '0', hexDigit (c.toNat / 16), hexDigit (c.toNat % 16)]
  else [c]

/-- The characters of a text between double quotes. -/
def quoted (cs : List Char) : List Char := '"' :: (cs.flatMap quoteChar ++ ['"'])

/-- A text between double quotes. -/
def quote (s : String) : String := String.ofList (quoted s.toList)

theorem quoteChar_plain {c : Char} (hq : c ≠ '"') (hb : c ≠ '\\') (h : 0x20 ≤ c.toNat) :
    quoteChar c = [c] := by
  have (d : Char) (hd : d.toNat < 0x20) : c ≠ d := by rintro rfl; omega
  simp [quoteChar, hq, hb, this '\x08' (by decide), this '\x0c' (by decide),
    this '\n' (by decide), this '\r' (by decide), this '\t' (by decide), Nat.not_lt.mpr h]

example : quote "a\"\n\x01" = "\"a\\\"\\n\\u0001\"" := by decide

end ModuleBundler.Text
