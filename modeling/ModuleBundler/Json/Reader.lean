import ModuleBundler.Json.Basic
import ModuleBundler.Text.Character

/-! Reading structured data. A value may only be skipped: then its form is looked at and not what
it stands for, so that it may be nested without limit, its numbers may have any size and the
halves of a character outside the basic plane may stand alone. -/
namespace ModuleBundler
namespace JsonText
open ModuleBundler.Text

/-- How many levels a value may open, if it is not skipped. -/
abbrev Limit := Option Nat

/-- The limit inside of a level, if one more may be opened. -/
def Limit.deeper? : Limit → Option Limit
  | none => some none
  | some 0 => none
  | some (n + 1) => some (some n)

/-- What may stand between the parts. -/
def isBlank (c : Char) : Bool := c = ' ' || c = '\t' || c = '\n' || c = '\r'

/-- The text without the blanks before it. -/
def skipBlanks (cs : List Char) : List Char := cs.dropWhile isBlank

/-- The number that four hexadecimal digits denote. -/
def unit? : List Char → Option Nat
  | a :: b :: c :: d :: _ => do
    let a ← digitValue? 16 a
    let b ← digitValue? 16 b
    let c ← digitValue? 16 c
    let d ← digitValue? 16 d
    return ((a * 16 + b) * 16 + c) * 16 + d
  | _ => none

/-- The character that two halves denote. -/
def joinHalves (high low : Nat) : Char :=
  Char.ofNat (0x10000 + (high - 0xD800) * 0x400 + (low - 0xDC00))

/-- What follows a backslash and a `u` denotes a character, and takes so many characters. -/
def unicodeEscape (skipped : Bool) (cs : List Char) : Option (Char × Nat) := do
  let code ← unit? cs
  if code < 0xD800 ∨ 0xDFFF < code then return (Char.ofNat code, 4)
  else if skipped then return ('\uFFFD', 4)
  else
    match cs.drop 4 with
    | '\\' :: 'u' :: rest =>
      let low ← unit? rest
      if code < 0xDC00 ∧ 0xDC00 ≤ low ∧ low ≤ 0xDFFF then return (joinHalves code low, 10)
      else none
    | _ => none

/-- What follows a backslash denotes a character, and takes so many characters. -/
def escape (skipped : Bool) : List Char → Option (Char × Nat)
  | '"' :: _ => some ('"', 1)
  | '\\' :: _ => some ('\\', 1)
  | '/' :: _ => some ('/', 1)
  | 'b' :: _ => some ('\x08', 1)
  | 'f' :: _ => some ('\x0c', 1)
  | 'n' :: _ => some ('\n', 1)
  | 'r' :: _ => some ('\r', 1)
  | 't' :: _ => some ('\t', 1)
  | 'u' :: cs => (fun (c, n) => (c, n + 1)) <$> unicodeEscape skipped cs
  | _ => none

/-- The text up to a closing quote, and what follows that. -/
def text (skipped : Bool) : List Char → Option (List Char × List Char)
  | [] => none
  | '"' :: cs => some ([], cs)
  | '\\' :: cs =>
    match escape skipped cs with
    | some (c, n) => (fun (s, rest) => (c :: s, rest)) <$> text skipped (cs.drop n)
    | none => none
  | c :: cs =>
    if c.toNat < 0x20 then none else (fun (s, rest) => (c :: s, rest)) <$> text skipped cs
  termination_by cs => cs.length
  decreasing_by all_goals simp; try omega

/-- The parts of a number: its sign does not matter here. -/
structure Numeral where
  whole : List Char
  fraction : List Char
  exponent : Int

/-- At least one digit, and what follows the digits. -/
def digits? (cs : List Char) : Option (List Char × List Char) :=
  match cs.takeWhile Char.isDigit with
  | [] => none
  | ds => some (ds, cs.drop ds.length)

/-- The number that digits denote. -/
def ofDigits (ds : List Char) : Nat := ds.foldl (fun n d => n * 10 + (d.toNat - '0'.toNat)) 0

/-- The digits behind a point, if there is one. -/
def fraction? : List Char → Option (List Char × List Char)
  | '.' :: cs => digits? cs
  | cs => some ([], cs)

/-- A whole number that may have a sign. -/
def signed? : List Char → Option (Int × List Char)
  | '-' :: cs => (fun (ds, rest) => (-(ofDigits ds : Int), rest)) <$> digits? cs
  | '+' :: cs => (fun (ds, rest) => ((ofDigits ds : Int), rest)) <$> digits? cs
  | cs => (fun (ds, rest) => ((ofDigits ds : Int), rest)) <$> digits? cs

/-- The exponent, if there is one. -/
def exponent? : List Char → Option (Int × List Char)
  | 'e' :: cs | 'E' :: cs => signed? cs
  | cs => some (0, cs)

/-- A number without its sign; a nought is not followed by another digit before the point. -/
def numeral? (cs : List Char) : Option (Numeral × List Char) := do
  let (whole, rest) ← digits? cs
  if whole.head? = some '0' ∧ 1 < whole.length then none
  else
    let (fraction, rest) ← fraction? rest
    let (exponent, rest) ← exponent? rest
    return (⟨whole, fraction, exponent⟩, rest)

/-- Digits behind a number, as long as 64 bits hold it, and the digits that are left. -/
def appendDigits (n : Nat) : List Char → Nat × List Char
  | [] => (n, [])
  | d :: ds =>
    let m := n * 10 + (d.toNat - '0'.toNat)
    if m < Nat.pow 2 64 then appendDigits m ds else (n, d :: ds)

/-- The leading digits of a number, and the power of ten that they count. On either side of the
point, the first digit that 64 bits do not hold is left out, with all behind it on that side. -/
def Numeral.leading (n : Numeral) : Nat × Int :=
  let (whole, omitted) := appendDigits 0 n.whole
  let (digits, unread) := appendDigits whole n.fraction
  (digits, n.exponent + omitted.length - (n.fraction.length - unread.length))

/-- The nearest number with at most 53 binary digits; of two that are equally near, the one whose
digits are even. -/
def nearestDouble (n : Nat) : Nat :=
  let unit := Nat.pow 2 (Nat.log2 n - 52)
  let below := n / unit
  let rest := n % unit
  if unit < 2 * rest ∨ unit = 2 * rest ∧ below % 2 = 1 then (below + 1) * unit else below * unit

/-- Whether a number is out of range: the double of its leading digits, times the double of their
power of ten, is nearer to the next power of two than to the largest double, or half way. -/
def Numeral.isTooLarge (n : Numeral) : Bool :=
  let (digits, exponent) := n.leading
  if digits = 0 ∨ exponent < 0 then false
  else if 308 < exponent then true
  else
    Nat.pow 2 1024 - Nat.pow 2 970
      ≤ nearestDouble digits * nearestDouble (Nat.pow 10 exponent.toNat)

/-- A number, and what follows it. -/
def number (limit : Limit) (cs : List Char) : Option (Json × List Char) := do
  let unsigned := if cs.head? = some '-' then cs.drop 1 else cs
  let (n, rest) ← numeral? unsigned
  if limit.isSome && n.isTooLarge then none
  else return (.number (String.ofList (cs.take (cs.length - rest.length))), rest)

mutual
/-- A value, and what follows it. The first number bounds the depth of the recursion. -/
def value (limit : Limit) : Nat → List Char → Option (Json × List Char)
  | 0, _ => none
  | fuel + 1, cs =>
    match skipBlanks cs with
    | 'n' :: 'u' :: 'l' :: 'l' :: rest => some (.null, rest)
    | 't' :: 'r' :: 'u' :: 'e' :: rest => some (.bool true, rest)
    | 'f' :: 'a' :: 'l' :: 's' :: 'e' :: rest => some (.bool false, rest)
    | '"' :: rest => (fun (s, rest) => (.string (String.ofList s), rest)) <$> text limit.isNone rest
    | '[' :: rest => do
      let limit ← limit.deeper?
      match skipBlanks rest with
      | ']' :: rest => return (.array [], rest)
      | rest =>
        let (items, rest) ← items limit fuel rest
        return (.array items, rest)
    | '{' :: rest => do
      let limit ← limit.deeper?
      let (members, rest) ← object limit.isNone (fun _ => limit) fuel rest
      return (.object members, rest)
    | rest => number limit rest
/-- At least one item of an array, and what follows the array. -/
def items (limit : Limit) : Nat → List Char → Option (List Json × List Char)
  | 0, _ => none
  | fuel + 1, cs => do
    let (item, rest) ← value limit fuel cs
    match skipBlanks rest with
    | ']' :: rest => return ([item], rest)
    | ',' :: rest =>
      let (others, rest) ← items limit fuel rest
      return (item :: others, rest)
    | _ => none
/-- The members of an object whose brace is open, and what follows it; a key says which limit
there is for its value. -/
def object (skippedKeys : Bool) (limitOf : String → Limit) :
    Nat → List Char → Option (List (String × Json) × List Char)
  | 0, _ => none
  | fuel + 1, cs =>
    match skipBlanks cs with
    | '}' :: rest => some ([], rest)
    | rest => members skippedKeys limitOf fuel rest
/-- At least one member of an object, and what follows the object. -/
def members (skippedKeys : Bool) (limitOf : String → Limit) :
    Nat → List Char → Option (List (String × Json) × List Char)
  | 0, _ => none
  | fuel + 1, cs =>
    match skipBlanks cs with
    | '"' :: rest => do
      let (key, rest) ← text skippedKeys rest
      let key := String.ofList key
      match skipBlanks rest with
      | ':' :: rest =>
        let (first, rest) ← value (limitOf key) fuel rest
        match skipBlanks rest with
        | '}' :: rest => return ([(key, first)], rest)
        | ',' :: rest =>
          let (others, rest) ← members skippedKeys limitOf fuel rest
          return ((key, first) :: others, rest)
        | _ => none
      | _ => none
    | _ => none
end

example : ((numeral? "17976931348623158e292".toList).map fun n => n.1.isTooLarge) = some true
    ∧ ((numeral? "179769313486231582e291".toList).map fun n => n.1.isTooLarge) = some false := by
  decide +kernel

@[simp] theorem text_cons_quote (skipped : Bool) (cs : List Char) :
    text skipped ('"' :: cs) = some ([], cs) := by rw [text]

/-- How many levels a text may have. -/
def depthLimit : Nat := 127

end JsonText

/-- Reads a text that holds one value; if that is an object, it is read for the values of the
keys that are wanted, and the others are skipped. -/
def Json.readFor (wanted : String → Bool) (s : String) : Option Json := do
  let cs := s.toList
  let fuel := 2 * cs.length + 2
  let limitOf := fun key => if wanted key then some (JsonText.depthLimit - 1) else none
  let (j, rest) ←
    match JsonText.skipBlanks cs with
    | '{' :: rest =>
      (fun (members, rest) => (Json.object members, rest))
        <$> JsonText.object false limitOf fuel rest
    | cs => JsonText.value (some JsonText.depthLimit) fuel cs
  if (JsonText.skipBlanks rest).isEmpty then return j else none

/-- Reads a text that holds one value. -/
def Json.read (s : String) : Option Json := Json.readFor (fun _ => true) s

namespace JsonReader

/-- What the description of a package says about its main file, if it can be read; everything
else in it is skipped. -/
def packageMain? (text : String) : Option (Option String) := do
  match ← Json.readFor (· = "main") text with
  | .object members =>
    match members.filter (·.1 = "main") with
    | [] => return none
    | [(_, main)] => Json.text? (some main)
    | _ => none
  | .array [main] => Json.text? (some main)
  | _ => none

example : packageMain? "\x7b\"main\": \"lib/a\", \"x\": [1e999]\x7d" = some (some "lib/a") := by
  decide +kernel

/-- Reads texts to the letter. -/
def strict : JsonReader where
  read := Json.read
  packageMain text :=
    match packageMain? text with
    | some main => .ok main
    | none => .error "not a description of a package"

end JsonReader

end ModuleBundler
