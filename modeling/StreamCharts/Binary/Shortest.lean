import StreamCharts.Binary.Decimal

/-!
# Shortest decimals

A binary number is shown by the fewest decimal digits that read back as the same number, and among those by the nearest.
The digits are found on ever finer decimal grids: if a point of a grid reads back, then so does one of the two points next to
the number. Main definitions: `Format.shortest`, and `Binary.display`, which writes the digits without an exponent.
-/

namespace StreamCharts

/-- The decimal logarithm of a positive number, rounded down. -/
def floorLog10 (x : Rat) : Int :=
  let digitCount (n : Nat) : Int := (Nat.toDigits 10 n).length
  let guess : Int := digitCount x.num.toNat - digitCount x.den
  if x < (10 : Rat) ^ guess then guess - 1 else guess

namespace Format

/-- Whether an exact magnitude is rounded to a given positive rank: it lies between the midpoints to the neighbouring ranks,
and on a midpoint only for an even rank. -/
def readsAs (f : Format) (rank : Nat) (x : Rat) : Bool :=
  let low := (f.magnitude (rank - 1) + f.magnitude rank) / 2
  let high := (f.magnitude rank + f.magnitude (rank + 1)) / 2
  if rank % 2 = 0 then decide (low ≤ x) && decide (x ≤ high) else decide (low < x) && decide (x < high)

/-- The point of the decimal grid of a given unit that is next to a magnitude and reads back as its rank; of two the nearer,
and the larger if both are as near. -/
def gridPoint? (f : Format) (rank : Nat) (exponent : Int) : Option Nat :=
  let unit := (10 : Rat) ^ exponent
  let x := f.magnitude rank
  let below := (x / unit).floor.toNat
  let readsBelow := f.readsAs rank ((below : Rat) * unit)
  let readsAbove := f.readsAs rank (((below + 1 : Nat) : Rat) * unit)
  if readsBelow && readsAbove then
    if x - (below : Rat) * unit < unit / 2 then some below else some (below + 1)
  else if readsBelow then some below
  else if readsAbove then some (below + 1)
  else none

/-- The first grid with a point that reads back, among so many grids from a unit downwards. -/
def firstGrid (f : Format) (rank : Nat) : (count : Nat) → (exponent : Int) → Nat × Int
  | 0, exponent => ((f.magnitude rank / (10 : Rat) ^ exponent).floor.toNat, exponent)
  | count + 1, exponent =>
    match f.gridPoint? rank exponent with
    | some digits => (digits, exponent)
    | none => firstGrid f rank count (exponent - 1)

/-- The shortest digits of a positive rank and the power of ten of the last one. The first grid holds the next power of ten,
which may read back; some grid finer than the unit of the rank has a point that does, which bounds the search. -/
def shortest (f : Format) (rank : Nat) : Nat × Int :=
  f.firstGrid rank (f.fractionBits + 3) (floorLog10 (f.magnitude rank) + 1)

end Format

namespace Decimal

/-- The digits of a number with its point: zeros fill the places up to the point, and none is written behind the last digit. -/
def positional (digits : Nat) (exponent : Int) : String :=
  let text := Nat.toDigits 10 digits
  if 0 ≤ exponent then String.ofList (text ++ List.replicate exponent.toNat '0')
  else
    let places := exponent.natAbs
    let padded := List.replicate (places + 1 - text.length) '0' ++ text
    let point := padded.length - places
    String.ofList (padded.take point ++ '.' :: padded.drop point)

end Decimal

namespace Binary

variable {f : Format}

/-- A number in the fewest digits that read back, never with an exponent. -/
def display : Binary f → String
  | .nan _ => "NaN"
  | .infinite negative => if negative then "-inf" else "inf"
  | .finite negative rank =>
    let sign := if negative then "-" else ""
    if rank.val = 0 then sign ++ "0"
    else
      let (digits, exponent) := f.shortest rank
      sign ++ Decimal.positional digits exponent

/-- A number as `display` shows it, with `.0` behind a finite whole number. -/
def displayWithPoint (x : Binary f) : String :=
  let text := x.display
  if x.isFinite && !text.toList.contains '.' then text ++ ".0" else text

end Binary

end StreamCharts
