/-!
# Binary floating point numbers

A format of the IEEE 754 interchange kind is given by its two field widths. The magnitudes of a format are counted by their
*rank*: rank 0 is zero, and the next rank is the next larger magnitude, so that ranks are ordered as magnitudes are and the
rank after the last finite one stands for infinity. Main definitions: `Format`, `Binary`, and the exact value of a number.
-/

namespace StreamCharts

/-- The widths of the fraction and of the exponent field. -/
structure Format where
  fractionBits : Nat
  exponentBits : Nat
deriving DecidableEq

namespace Format

/-- The format of 64 bits. -/
def double : Format := ⟨52, 11⟩

/-- The format of 32 bits. -/
def single : Format := ⟨23, 8⟩

/-- The number of magnitudes that share one exponent. -/
def binade (f : Format) : Nat :=
  Nat.pow 2 f.fractionBits

/-- The binary exponent of the smallest positive magnitude. -/
def minExponent (f : Format) : Int :=
  2 - (Nat.pow 2 (f.exponentBits - 1) : Nat) - f.fractionBits

/-- The rank that stands for infinity; the finite magnitudes are those of smaller rank. -/
def infinityRank (f : Format) : Nat :=
  (Nat.pow 2 f.exponentBits - 1) * f.binade

/-- The magnitude of a rank. In the first binade ranks count units of the smallest magnitude; from there on each binade
doubles the unit. -/
def magnitude (f : Format) (rank : Nat) : Rat :=
  if rank < f.binade then (rank : Rat) * (2 : Rat) ^ f.minExponent
  else ((f.binade + rank % f.binade : Nat) : Rat) * (2 : Rat) ^ (f.minExponent + (rank / f.binade : Nat) - 1)

end Format

/-- A number of a format. Zero has two signs, and the exact value of both is 0; NaN has two signs as well. -/
inductive Binary (f : Format) where
  | nan (negative : Bool)
  | infinite (negative : Bool)
  | finite (negative : Bool) (rank : Fin f.infinityRank)
deriving DecidableEq

/-- The numbers of 64 bits. -/
abbrev Binary64 := Binary .double

/-- The numbers of 32 bits. -/
abbrev Binary32 := Binary .single

namespace Binary

variable {f : Format}

/-- The exact value of a finite number; 0 for the others. -/
def value : Binary f → Rat
  | .finite negative rank => if negative then -f.magnitude rank else f.magnitude rank
  | _ => 0

/-- Whether a number is finite. -/
def isFinite : Binary f → Bool
  | .finite _ _ => true
  | _ => false

/-- Whether a number is NaN. -/
def isNaN : Binary f → Bool
  | .nan _ => true
  | _ => false

/-- The number with the other sign. -/
def negate : Binary f → Binary f
  | .nan negative => .nan (!negative)
  | .infinite negative => .infinite (!negative)
  | .finite negative rank => .finite (!negative) rank

/-- The number with a given sign and rank; ranks from infinity on give infinity. -/
def ofRank (f : Format) (negative : Bool) (rank : Nat) : Binary f :=
  if h : rank < f.infinityRank then .finite negative ⟨rank, h⟩ else .infinite negative

/-- Where a number stands in the order of its format: its rank with its sign, so both zeros stand at 0. NaN has no place. -/
def place? : Binary f → Option Int
  | .nan _ => none
  | .infinite negative => some (if negative then -(f.infinityRank : Int) else f.infinityRank)
  | .finite negative rank => some (if negative then -(rank.val : Int) else rank.val)

/-- The order of numbers; nothing compares with NaN. -/
def le (a b : Binary f) : Bool :=
  match a.place?, b.place? with
  | some i, some j => decide (i ≤ j)
  | _, _ => false

/-- Equality of numbers as IEEE 754 has it: both zeros are equal, and NaN equals nothing. -/
def same (a b : Binary f) : Bool :=
  match a.place?, b.place? with
  | some i, some j => decide (i = j)
  | _, _ => false

/-- The bit of the sign, which stands above the exponent field. -/
def signBit (f : Format) (negative : Bool) : Nat :=
  if negative then f.binade * Nat.pow 2 f.exponentBits else 0

/-- The bits of a number: its rank below its sign. NaN is written with the top bit of the fraction. -/
def toBits : Binary f → Nat
  | .nan negative => signBit f negative + (f.infinityRank + f.binade / 2)
  | .infinite negative => signBit f negative + f.infinityRank
  | .finite negative rank => signBit f negative + rank

/-- The number with the given bits. Of a NaN only the sign is kept. -/
def ofBits (f : Format) (bits : Nat) : Binary f :=
  let half := f.binade * Nat.pow 2 f.exponentBits
  let rank := bits % half
  if f.infinityRank < rank then .nan (decide (half ≤ bits)) else ofRank f (decide (half ≤ bits)) rank

end Binary

end StreamCharts
