import StreamCharts.Binary.Rounding
import StreamCharts.Numeral

/-!
# Decimal numbers

A decimal number is a whole number times a power of ten. Its text has an optional sign, digits with an optional point, and an
optional exponent; `inf`, `infinity` and `nan` in any case stand for themselves. Main definitions: `Decimal.toBinary`, the
nearest binary number, and `Binary.ofText?`, the reader.
-/

namespace StreamCharts

/-- The number `digits · 10 ^ exponent` with a sign. -/
structure Decimal where
  negative : Bool
  digits : Nat
  exponent : Int
deriving DecidableEq

namespace Decimal

/-- The magnitude of a decimal number. -/
def magnitude (d : Decimal) : Rat :=
  (d.digits : Rat) * (10 : Rat) ^ d.exponent

/-- The nearest binary number. Exponents too far out for any number of the format are decided without forming the power. -/
def toBinary (f : Format) (d : Decimal) : Binary f :=
  let limit : Int := (Nat.pow 2 f.exponentBits : Nat)
  if d.digits = 0 then Binary.ofRank f d.negative 0
  else if limit < d.exponent then .infinite d.negative
  else if d.exponent + (d.digits.log2 : Nat) + 1 < -limit then Binary.ofRank f d.negative 0
  else Binary.ofMagnitude f d.negative d.magnitude

/-- The decimal number of the digits before and after the point, and the exponent that multiplies it. -/
def ofParts (negative : Bool) (whole fraction : List Char) (exponent : Int) : Decimal :=
  ⟨negative, Numeral.ofDigits (whole ++ fraction), exponent - fraction.length⟩

/-- An exponent is read until it has reached this number; the digits behind that are passed over. -/
def exponentLimit : Nat := 65536

/-- The exponent that digits denote, as far as they are read, after those already read. -/
def accumulateExponent : Nat → List Char → Nat
  | n, [] => n
  | n, c :: cs => accumulateExponent (if n < exponentLimit then n * 10 + Numeral.digitValue c else n) cs

/-- The exponent of a sign and digits. -/
def exponentOfDigits (negative : Bool) (digits : List Char) : Int :=
  let n : Int := (accumulateExponent 0 digits : Nat)
  if negative then -n else n

/-- The exponent behind its letter: one or more digits after an optional sign. -/
def signedExponent? (cs : List Char) : Option Int :=
  let (negative, digits) := Numeral.splitSign cs
  if digits.isEmpty || !digits.all Numeral.isDigit then none else some (exponentOfDigits negative digits)

/-- The exponent after the digits: nothing, or `e` and an integer. -/
def exponent? : List Char → Option Int
  | [] => some 0
  | c :: cs => if c = 'e' || c = 'E' then signedExponent? cs else none

/-- The decimal number that a text without its sign denotes. -/
def unsigned? (negative : Bool) (cs : List Char) : Option Decimal :=
  let whole := cs.takeWhile Numeral.isDigit
  let (fraction, rest) := match cs.dropWhile Numeral.isDigit with
    | '.' :: after => (after.takeWhile Numeral.isDigit, after.dropWhile Numeral.isDigit)
    | after => ([], after)
  if whole.isEmpty && fraction.isEmpty then none
  else (exponent? rest).map (ofParts negative whole fraction)

end Decimal

namespace Binary

/-- A word that stands for a number without digits, in any case. -/
def ofWord? (f : Format) (negative : Bool) (cs : List Char) : Option (Binary f) :=
  let word := String.ofList (cs.map Char.toLower)
  if word = "inf" || word = "infinity" then some (.infinite negative)
  else if word = "nan" then some (.nan negative)
  else none

/-- The number that a text without its sign denotes. -/
def unsigned? (f : Format) (negative : Bool) (cs : List Char) : Option (Binary f) :=
  match ofWord? f negative cs with
  | some x => some x
  | none => (Decimal.unsigned? negative cs).map (Decimal.toBinary f)

/-- The number that a text denotes, rounded to the nearest. -/
def ofText? (f : Format) (text : String) : Option (Binary f) :=
  match text.toList with
  | '-' :: cs => unsigned? f true cs
  | '+' :: cs => unsigned? f false cs
  | cs => unsigned? f false cs

end Binary

end StreamCharts
