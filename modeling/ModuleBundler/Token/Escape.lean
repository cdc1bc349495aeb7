import ModuleBundler.Text.Character

/-! The escape sequences of strings, templates and names. -/
namespace ModuleBundler.Escape
open ModuleBundler.Text

/-- The number that hexadecimal digits denote. -/
def hexValue (digits : List Char) : Nat :=
  digits.foldl (fun code c => code * 16 + (digitValue? 16 c).getD 0) 0

/-- The hexadecimal digits, at most `limit` of them, with which the text starts. -/
def hexRun (limit : Nat) (cs : List Char) : List Char :=
  (cs.take limit).takeWhile (isDigitOf 16)

/-- What follows a backslash and a `u` denotes one character, and takes so many characters:
any number of digits in braces, of which the closing one may be missing, or up to four. -/
def unicode : List Char → Char × Nat
  | '{' :: cs =>
    let digits := cs.takeWhile (isDigitOf 16)
    let closing := if (cs.drop digits.length).head? = some '}' then 1 else 0
    (charOfCode (hexValue digits), 1 + digits.length + closing)
  | cs =>
    let digits := hexRun 4 cs
    (charOfCode (hexValue digits), digits.length)

/-- The letters that denote a control character after a backslash. -/
def control? : Char → Option Char
  | 'n' => some '\n'
  | 'r' => some '\r'
  | 't' => some '\t'
  | 'b' => some '\x08'
  | 'f' => some '\x0c'
  | 'v' => some '\x0b'
  | _ => none

/-- What follows a backslash denotes one character, or none when it continues the line, and
takes so many characters. -/
def read : List Char → Option Char × Nat
  | [] => (none, 0)
  | 'u' :: cs => (some (unicode cs).1, 1 + (unicode cs).2)
  | 'x' :: cs => (some (charOfCode (hexValue (hexRun 2 cs))), 1 + (hexRun 2 cs).length)
  | '0' :: cs => (some (if cs.head?.any Char.isDigit then '0' else '\x00'), 1)
  | '\r' :: '\n' :: _ => (none, 2)
  | c :: _ =>
    if isLineTerminator c then (none, 1)
    else (some ((control? c).getD c), 1)

/-- The text that the inside of a string or template denotes. -/
def decode : List Char → List Char
  | [] => []
  | '\\' :: cs => (read cs).1.toList ++ decode (cs.drop (read cs).2)
  | c :: cs => c :: decode cs
  termination_by cs => cs.length
  decreasing_by all_goals simp; try omega

@[simp] theorem decode_nil : decode [] = [] := by simp [decode]

theorem decode_escape (cs : List Char) :
    decode ('\\' :: cs) = (read cs).1.toList ++ decode (cs.drop (read cs).2) := by
  rw [decode]

theorem decode_plain {c : Char} (h : c ≠ '\\') (cs : List Char) :
    decode (c :: cs) = c :: decode cs := by
  rw [decode]; simpa using h

/-- The characters of the name with which the text starts, each with the number of characters
that write it. -/
def nameParts : List Char → List (Char × Nat)
  | [] => []
  | '\\' :: 'u' :: cs =>
    ((unicode cs).1, 2 + (unicode cs).2) :: nameParts (cs.drop (unicode cs).2)
  | c :: cs => if isNamePart c then (c, 1) :: nameParts cs else []
  termination_by cs => cs.length
  decreasing_by all_goals simp; try omega

example : String.ofList (decode "a\\x41\\u\x7b1F600\x7d\\\nb\\0".toList) = "aA😀b\x00" := by
  decide +kernel

end ModuleBundler.Escape
