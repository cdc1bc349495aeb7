import ModuleBundler.Text.Alphabetic
import ModuleBundler.Text.Numeric
import ModuleBundler.Text.Range

/-! The character classes that the tokens of a script are made of. -/
namespace ModuleBundler.Text

/-- Line feed, carriage return, line separator and paragraph separator end a line. -/
def isLineTerminator (c : Char) : Bool :=
  c == '\n' || c == '\r' || c == '\u2028' || c == '\u2029'

/-- The characters with the property White_Space. -/
def isWhiteSpace (c : Char) : Bool :=
  c == ' ' || covered [(0x9, 0xd), (0x85, 0x85), (0xa0, 0xa0), (0x1680, 0x1680),
    (0x2000, 0x200a), (0x2028, 0x2029), (0x202f, 0x202f), (0x205f, 0x205f), (0x3000, 0x3000)] c

/-- White space and the byte order mark separate tokens. -/
def isBlank (c : Char) : Bool := isWhiteSpace c || c == '\ufeff'

/-- A letter is a character with the property Alphabetic. -/
def isLetter (c : Char) : Bool :=
  c.isAlpha || (0x80 ≤ c.toNat && covered alphabeticRanges c)

/-- A letter or a number. -/
def isLetterOrNumber (c : Char) : Bool :=
  isLetter c || c.isDigit || (0x80 ≤ c.toNat && covered numericRanges c)

/-- The characters that continue a name without being escaped. -/
def isNamePart (c : Char) : Bool :=
  isLetterOrNumber c || c == '_' || c == '$' || c == '\u200c' || c == '\u200d'

/-- The characters, the backslash of an escape included, with which a name starts. -/
def isNameStart (c : Char) : Bool :=
  c == '_' || c == '$' || c == '\\' || isLetter c

/-- The value of a digit in one of the radices up to sixteen. -/
def digitValue? (radix : Nat) (c : Char) : Option Nat :=
  let value? :=
    if c.isDigit then some (c.toNat - '0'.toNat)
    else if 'a' ≤ c ∧ c ≤ 'f' then some (c.toNat - 'a'.toNat + 10)
    else if 'A' ≤ c ∧ c ≤ 'F' then some (c.toNat - 'A'.toNat + 10)
    else none
  value?.filter (· < radix)

/-- The character is a digit in the radix. -/
def isDigitOf (radix : Nat) (c : Char) : Bool := (digitValue? radix c).isSome

/-- The character with a code point, or the replacement character where there is none. -/
def charOfCode (code : Nat) : Char :=
  if code.isValidChar then Char.ofNat code else '\ufffd'

theorem digitValue?_lt {radix v : Nat} {c : Char} (h : digitValue? radix c = some v) :
    v < radix := by
  simp only [digitValue?, Option.filter_eq_some_iff] at h
  simpa using h.2

theorem isBlank_of_isLineTerminator {c : Char} (h : isLineTerminator c) : isBlank c := by
  simp only [isLineTerminator, Bool.or_eq_true, beq_iff_eq] at h
  rcases h with ((rfl | rfl) | rfl) | rfl <;> decide

example : isLetter 'λ' ∧ isLetter '語' ∧ ¬ isLetter '£' := by decide +kernel
example : isNamePart '٣' ∧ ¬ isLetter '٣' := by decide +kernel
example : digitValue? 16 'F' = some 15 ∧ digitValue? 8 '8' = none := by decide

end ModuleBundler.Text
