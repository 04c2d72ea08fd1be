import StreamCharts.Binary.Arithmetic
import StreamCharts.Binary.Shortest

/-!
# Decades

Steps between ticks are small multiples of powers of ten. The power that belongs to a number is found by the decimal logarithm,
which is itself a number of 64 bits: just below a power of ten it comes out as a whole number. Main definitions:
`decimalLogarithm`, put together from exponent and mantissa in a fixed order of operations, `decadeOf`, the whole part of the
logarithm, and `powerOfTen`.
-/

namespace StreamCharts

/-- The first terms of the series of twice the area tangent, which sums up to the natural logarithm of `(1 + t) / (1 - t)`. -/
def logarithmSeries (t : Rat) : (terms : Nat) → Rat
  | 0 => 0
  | n + 1 => logarithmSeries t n + 2 * t ^ (2 * n + 1) / ((2 * n + 1 : Nat) : Rat)

/-- The natural logarithm of a number between one half and two, to more than a hundred binary places. -/
def naturalLogarithm (x : Rat) : Rat :=
  logarithmSeries ((x - 1) / (x + 1)) 45

/-- The number nearest to an exact value, where a remainder that falls short of one half by no more than `2 ^ -10` counts as one
half, and one half is rounded away from zero. -/
def roundUpward (x : Rat) : Binary64 :=
  let whole (q : Rat) := (q + 1 / 2 + 1 / 1024).floor.toNat
  if x = 0 then 0 else Binary.ofRank .double (decide (x < 0)) (Format.double.rankBy whole x.abs)

/-- The decimal logarithm of two in two parts: the leading bits, so few that their product with an exponent is exact. -/
def logTwoHigh : Binary64 := Binary.ofBits .double 0x3FD34413509F6000

/-- The rest of the decimal logarithm of two. -/
def logTwoLow : Binary64 := Binary.ofBits .double 0x3D59FEF311F12B36

/-- The decimal logarithm of the base of the natural one. -/
def logE : Binary64 := Binary.ofBits .double 0x3FDBCB7B1526E50E

/-- The decimal logarithm of a positive number. The number is split into a power of two and a mantissa, which lies above one half
for negative exponents and from one on for the others; the logarithms of both are added, each operation rounded. -/
def decimalLogarithm (x : Rat) : Binary64 :=
  let exponent := if floorLog2 x < 0 then floorLog2 x + 1 else floorLog2 x
  let mantissa := x / (2 : Rat) ^ exponent
  let scale := Binary.ofInt .double exponent
  (scale * logTwoLow + logE * roundUpward (naturalLogarithm mantissa)) + scale * logTwoHigh

/-- The whole part of the decimal logarithm of a positive number. The rounded logarithm is that of a power of ten for numbers so
little below it that their distance is at most the `2 ^ -42`-th part; for others it lies where the exact one does. -/
def decadeOf (x : Rat) : Int :=
  let next := floorLog10 x + 1
  if decide ((10 : Rat) ^ next * (1 - (2 : Rat) ^ (-42 : Int)) ≤ x) && (Binary.ofInt .double next).le (decimalLogarithm x) then next
  else next - 1

/-- The exponents of the powers of ten that the mathematical library computes one unit too large; both powers lie within a
thousandth of a unit below the middle between two numbers, or on it. -/
def raisedExponents : List Int := [23, 210]

/-- A power of ten as the mathematical library computes it: the nearest number, but for two exponents the next larger. -/
def powerOfTen (n : Int) : Binary64 :=
  let rank := Format.double.nearestRank ((10 : Rat) ^ n)
  Binary.ofRank .double false (if raisedExponents.contains n then rank + 1 else rank)

end StreamCharts
