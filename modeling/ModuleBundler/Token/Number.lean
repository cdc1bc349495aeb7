import ModuleBundler.Text.Character

/-! The values of number tokens, from their digits. -/
namespace ModuleBundler.Number
open ModuleBundler.Text

/-- The radix that the first characters announce, with the digits after them. -/
def radixDigits? : List Char → Option (Nat × List Char)
  | '0' :: 'x' :: digits => some (16, digits)
  | '0' :: 'o' :: digits => some (8, digits)
  | '0' :: 'b' :: digits => some (2, digits)
  | _ => none

/-- Digits of a radix, folded from the left and rounded at each one. -/
def ofRadix (radix : Nat) (digits : List Char) : Float :=
  (digits.filterMap (digitValue? radix)).foldl
    (fun acc d => acc * Float.ofNat radix + Float.ofNat d) 0

/-- A decimal number: its digits without the point, and the power of ten that they count. -/
structure Decimal where
  digits : Nat
  exponent : Int
  deriving DecidableEq, Repr

/-- The number that decimal digits denote. -/
def digitsValue (cs : List Char) : Nat :=
  cs.foldl (fun n c => n * 10 + (c.toNat - '0'.toNat)) 0

/-- An exponent after its mark: a sign, which may be missing, and at least one digit. -/
def exponent? (cs : List Char) : Option Int :=
  let (negative, digits) := match cs with
    | '-' :: r => (true, r)
    | '+' :: r => (false, r)
    | r => (false, r)
  if digits.isEmpty || digits.any (fun c => !c.isDigit) then none
  else some (if negative then -(digitsValue digits : Int) else digitsValue digits)

/-- A decimal number: digits, among them at most one point, and perhaps an exponent. -/
def decimal? (cs : List Char) : Option Decimal :=
  let whole := cs.takeWhile Char.isDigit
  let (fraction, rest) := match cs.drop whole.length with
    | '.' :: r => (r.takeWhile Char.isDigit, r.dropWhile Char.isDigit)
    | r => ([], r)
  if whole.isEmpty && fraction.isEmpty then none
  else
    let digits := digitsValue (whole ++ fraction)
    match rest with
    | [] => some ⟨digits, -(fraction.length : Int)⟩
    | mark :: r =>
      if mark == 'e' || mark == 'E' then
        (exponent? r).map fun e => ⟨digits, e - fraction.length⟩
      else none

/-- The nearest floating-point number; powers of ten beyond its range are not computed. -/
def Decimal.toFloat (d : Decimal) : Float :=
  let magnitude : Int := (Nat.log2 d.digits : Int) * 3 / 10 + d.exponent
  if d.digits = 0 ∨ magnitude < -500 then 0
  else if magnitude > 500 then 1 / 0
  else Float.ofScientific d.digits (d.exponent < 0) d.exponent.natAbs

/-- The value of the digits of a number token. -/
def value (text : String) : Float :=
  match radixDigits? text.toList with
  | some (radix, digits) => ofRadix radix digits
  | none =>
    match decimal? text.toList with
    | some d => d.toFloat
    | none => 0 / 0

example : decimal? "12.50e-3".toList = some ⟨1250, -5⟩ := by decide
example : decimal? "5.".toList = some ⟨5, 0⟩ ∧ decimal? "1e".toList = none := by decide

end ModuleBundler.Number
