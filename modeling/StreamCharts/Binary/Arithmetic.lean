import StreamCharts.Binary.Rounding

/-!
# Arithmetic on binary numbers

Each operation is the exact operation, rounded once; the cases of infinities, NaN and the sign of zero are those of IEEE 754. The
sign of a NaN is left open there, and no answer depends on it: here a NaN among the terms hands on its own, and a NaN that arises is
positive. Main definitions: the four operations as instances, `floor`, `ceil` and `roundHalfAway` to whole numbers, and `toInt`,
the integer that a number is cut to within 64 bits.
-/

namespace StreamCharts.Binary

variable {f : Format}

/-- The sum. A zero sum is negative only if both terms are negative. -/
def add : Binary f → Binary f → Binary f
  | .nan s, _ => .nan s
  | _, .nan t => .nan t
  | .infinite s, .infinite t => if s = t then .infinite s else .nan false
  | .infinite s, .finite _ _ => .infinite s
  | .finite _ _, .infinite t => .infinite t
  | .finite s i, .finite t j => round f (s && t) ((Binary.finite s i).value + (Binary.finite t j).value)

/-- The difference. -/
def sub (a b : Binary f) : Binary f :=
  add a (negate b)

/-- The product; zero times infinity is NaN. -/
def mul : Binary f → Binary f → Binary f
  | .nan s, _ => .nan s
  | _, .nan t => .nan t
  | .infinite s, .infinite t => .infinite (s ^^ t)
  | .infinite s, .finite t j => if j.val = 0 then .nan false else .infinite (s ^^ t)
  | .finite s i, .infinite t => if i.val = 0 then .nan false else .infinite (s ^^ t)
  | .finite s i, .finite t j => round f (s ^^ t) ((Binary.finite s i).value * (Binary.finite t j).value)

/-- The quotient; a non-zero number by zero is infinite, zero by zero and infinity by infinity are NaN. -/
def div : Binary f → Binary f → Binary f
  | .nan s, _ => .nan s
  | _, .nan t => .nan t
  | .infinite _, .infinite _ => .nan false
  | .infinite s, .finite t _ => .infinite (s ^^ t)
  | .finite s _, .infinite t => ofRank f (s ^^ t) 0
  | .finite s i, .finite t j =>
    if j.val = 0 then (if i.val = 0 then .nan false else .infinite (s ^^ t))
    else round f (s ^^ t) ((Binary.finite s i).value / (Binary.finite t j).value)

instance : Neg (Binary f) := ⟨negate⟩

instance : Add (Binary f) := ⟨add⟩

instance : Sub (Binary f) := ⟨sub⟩

instance : Mul (Binary f) := ⟨mul⟩

instance : Div (Binary f) := ⟨div⟩

/-- The larger of two numbers, where NaN gives way to the other. -/
def larger (a b : Binary f) : Binary f :=
  if a.isNaN then b else if b.isNaN then a else if a.le b then b else a

/-- A finite number moved to a whole one; the sign stays, also on zero. -/
def toWhole (whole : Rat → Int) : Binary f → Binary f
  | .finite s i => round f s (whole (Binary.finite s i).value)
  | x => x

/-- The whole number nearest to an exact number, of two the one farther from zero. -/
def nearestWhole (x : Rat) : Int :=
  if x < 0 then -(-x + 1 / 2).floor else (x + 1 / 2).floor

/-- The largest whole number that is not larger. -/
def floor (x : Binary f) : Binary f :=
  x.toWhole Rat.floor

/-- The smallest whole number that is not smaller. -/
def ceil (x : Binary f) : Binary f :=
  x.toWhole Rat.ceil

/-- The nearest whole number, of two the one farther from zero. -/
def roundHalfAway (x : Binary f) : Binary f :=
  x.toWhole nearestWhole

/-- The integer nearest to `n` that 64 bits hold. -/
def clampInt64 (n : Int) : Int :=
  if n < Int64.minValue.toInt then Int64.minValue.toInt
  else if Int64.maxValue.toInt < n then Int64.maxValue.toInt
  else n

/-- The integer that a number is cut to: towards zero, and held within 64 bits; NaN gives 0. -/
def toInt : Binary f → Int
  | .nan _ => 0
  | .infinite negative => if negative then Int64.minValue.toInt else Int64.maxValue.toInt
  | .finite s i =>
    let x := (Binary.finite s i).value
    clampInt64 (if x < 0 then x.ceil else x.floor)

end StreamCharts.Binary
