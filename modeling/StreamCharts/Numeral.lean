/-!
# Whole numbers in text

A whole number is written with an optional sign and one or more ASCII digits, leading zeros allowed, and it must fit its
type. Main definitions: `int64?` and `uint32?`, the readers of the two integer types, and `decimal`, the writer.
-/

namespace StreamCharts.Numeral

/-- An ASCII digit. -/
def isDigit (c : Char) : Bool :=
  '0' ≤ c && c ≤ '9'

/-- The value of a digit. -/
def digitValue (c : Char) : Nat :=
  c.toNat - '0'.toNat

/-- The number that digits denote after those already read. -/
def accumulate (base : Nat) (value : Char → Nat) : Nat → List Char → Nat
  | n, [] => n
  | n, c :: cs => accumulate base value (n * base + value c) cs

/-- The number that ASCII digits denote. -/
def ofDigits (cs : List Char) : Nat :=
  accumulate 10 digitValue 0 cs

/-- The number written by one or more digits and nothing else. -/
def natural? (cs : List Char) : Option Nat :=
  if cs.isEmpty || !cs.all isDigit then none else some (ofDigits cs)

/-- Whether a text begins with a minus sign, and what follows its sign. -/
def splitSign : List Char → Bool × List Char
  | '-' :: rest => (true, rest)
  | '+' :: rest => (false, rest)
  | cs => (false, cs)

/-- The integer written by one or more digits after an optional sign. -/
def integer? (cs : List Char) : Option Int :=
  let (negative, digits) := splitSign cs
  (natural? digits).map fun n => if negative then -(n : Int) else n

/-- The 64-bit signed integer that a text denotes; a number out of range is refused. -/
def int64? (text : String) : Option Int64 :=
  match integer? text.toList with
  | none => none
  | some n => if Int64.minValue.toInt ≤ n ∧ n ≤ Int64.maxValue.toInt then some (Int64.ofInt n) else none

/-- The 32-bit unsigned integer that a text denotes, with no sign but `+`; a number out of range is refused. -/
def uint32? (text : String) : Option UInt32 :=
  let digits := match text.toList with
    | '+' :: cs => cs
    | cs => cs
  match natural? digits with
  | none => none
  | some n => if n < UInt32.size then some (UInt32.ofNat n) else none

/-- The decimal digits of a number, without leading zeros. -/
def decimal (n : Nat) : String :=
  String.ofList (Nat.toDigits 10 n)

/-- The decimal digits of an integer, after a minus sign if it is negative. -/
def signedDecimal (n : Int) : String :=
  if n < 0 then "-" ++ decimal n.natAbs else decimal n.natAbs

end StreamCharts.Numeral
