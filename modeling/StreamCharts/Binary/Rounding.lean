import StreamCharts.Binary.Format

/-!
# Rounding

An exact number is rounded by choosing the unit of its binade, rounding the quotient to a whole number, and counting ranks.
Main definitions: `Format.rankBy`, with the rounding of the quotient as a parameter; `Format.nearestRank`, which takes the
nearest and of two the even one; and `Binary.round`, the number nearest to an exact value.
-/

namespace StreamCharts

/-- The binary logarithm of a positive number, rounded down. -/
def floorLog2 (x : Rat) : Int :=
  let guess : Int := (x.num.toNat.log2 : Int) - (x.den.log2 : Int)
  if x < (2 : Rat) ^ guess then guess - 1 else guess

/-- The whole number nearest to a non-negative number, of two the even one. -/
def roundHalfEven (x : Rat) : Nat :=
  let whole := x.floor.toNat
  let rest := x - (whole : Rat)
  if rest < 1 / 2 then whole
  else if 1 / 2 < rest then whole + 1
  else whole + whole % 2

namespace Format

/-- The exponent of the unit in which a magnitude is measured. -/
def unitExponent (f : Format) (x : Rat) : Int :=
  let exponent := floorLog2 x - (f.fractionBits : Int)
  if exponent < f.minExponent then f.minExponent else exponent

/-- The rank of a magnitude whose quotient by its unit is rounded by `whole`. -/
def rankBy (f : Format) (whole : Rat → Nat) (x : Rat) : Nat :=
  let exponent := f.unitExponent x
  whole (x / (2 : Rat) ^ exponent) + (exponent - f.minExponent).toNat * f.binade

/-- The rank of the nearest magnitude, of two the even one. -/
def nearestRank (f : Format) (x : Rat) : Nat :=
  f.rankBy roundHalfEven x

end Format

namespace Binary

/-- The number nearest to a magnitude with a sign. -/
def ofMagnitude (f : Format) (negative : Bool) (x : Rat) : Binary f :=
  ofRank f negative (f.nearestRank x)

/-- The number nearest to an exact value; the exact value 0 takes the given sign. -/
def round (f : Format) (negativeZero : Bool) (x : Rat) : Binary f :=
  if x = 0 then ofRank f negativeZero 0 else ofMagnitude f (decide (x < 0)) x.abs

/-- The number nearest to an exact value, where 0 is positive. -/
def ofRat (f : Format) (x : Rat) : Binary f :=
  round f false x

/-- The number nearest to an integer. -/
def ofInt (f : Format) (n : Int) : Binary f :=
  ofRat f (n : Rat)

/-- The number of another format nearest to a number. -/
def convert (g : Format) {f : Format} : Binary f → Binary g
  | .nan negative => .nan negative
  | .infinite negative => .infinite negative
  | .finite negative rank => round g negative (Binary.finite negative rank).value

instance {f : Format} {n : Nat} : OfNat (Binary f) n := ⟨ofRat f (n : Nat)⟩

instance {f : Format} : OfScientific (Binary f) := ⟨fun digits minus exponent =>
  ofRat f (OfScientific.ofScientific digits minus exponent)⟩

end Binary

end StreamCharts
