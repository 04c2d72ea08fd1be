import StreamCharts.Chart.Decade

/-!
# Ticks of an axis

The marks on an axis stand at the multiples of a step that suits the visible range: a small multiple of a power of ten, large
enough that few marks are needed. Main definitions: `tickStep`, `TickPolicy.marks` and `integerLabel`.
-/

namespace StreamCharts

/-- A mark on an axis, with the step to the next. -/
structure Mark where
  position : Binary64
  step : Binary64
deriving DecidableEq

/-- How marks are placed on an axis. -/
inductive TickPolicy where
  /-- The plot decides. -/
  | auto
  /-- No more than so many marks. -/
  | atMost (limit : Nat)
  /-- Marks at whole numbers only. -/
  | integer
deriving DecidableEq

/-- The number of marks on an axis of times or amounts. -/
def maxMajorTicks : Nat := 15

/-- The number of marks on an axis of whole numbers. -/
def maxIntegerTicks : Nat := 10

/-- The multiples of a power of ten that make a step. -/
def niceMultiples : List Binary64 := [1, 2, 2.5, 5, 10]

/-- The multiples of a power of ten that make a whole step. -/
def integerMultiples : List Binary64 := [1, 2, 5, 10]

/-- The number of intervals between so many marks; at least one. -/
def intervals (maxTicks : Nat) : Nat :=
  if maxTicks ≤ 2 then 1 else maxTicks - 1

/-- The least part of a number that a step has to reach; a little is forgiven, so that rounding does not spoil an exact fit. -/
def forgiven (raw : Binary64) : Binary64 :=
  raw * (1 - 1e-9)

/-- The smallest multiple of a power of ten that reaches a positive number. -/
def niceStep (raw : Binary64) (multiples : List Binary64) : Binary64 :=
  let power := powerOfTen (decadeOf raw.value)
  match (multiples.map (· * power)).find? fun step => (forgiven raw).le step with
  | some step => step
  | none => 10 * power

/-- The step between marks when a span is divided by so many marks; a whole one if asked for. A span without extent has step 1. -/
def tickStep (span : Binary64) (maxTicks : Nat) (whole : Bool) : Binary64 :=
  let raw := span / Binary.ofInt .double (intervals maxTicks)
  if !raw.isFinite || raw.le 0 then 1
  else if whole then ((niceStep raw integerMultiples).larger 1).roundHalfAway
  else niceStep raw niceMultiples

/-- The integers from `first` to `last`, but no more than `count`. -/
def integersUpTo (first last : Int) (count : Nat) : List Int :=
  let available := (last + 1 - first).toNat
  (List.range (if available < count then available else count)).map fun i => first + (i : Nat)

/-- The marks at the multiples of a step between two bounds. -/
def marksBetween (low high : Binary64) (maxTicks : Nat) (step : Binary64) : List Mark :=
  let first := (low / step).ceil.toInt
  let last := (high / step).floor.toInt
  (integersUpTo first last maxTicks).map fun i => ⟨Binary.ofInt .double i * step, step⟩

/-- The marks between two bounds in either order, at most so many. There are none if a bound is not finite. -/
def limitedMarks (bounds : Binary64 × Binary64) (maxTicks : Nat) (whole : Bool) : List Mark :=
  let (low, high) := if bounds.1.le bounds.2 then bounds else (bounds.2, bounds.1)
  if !low.isFinite || !high.isFinite || maxTicks == 0 then []
  else marksBetween low high maxTicks (tickStep (high - low) maxTicks whole)

/-- The marks between two bounds, or nothing where the plot decides. -/
def TickPolicy.marks (policy : TickPolicy) (bounds : Binary64 × Binary64) : Option (List Mark) :=
  match policy with
  | .auto => none
  | .atMost limit => some (limitedMarks bounds limit false)
  | .integer => some (limitedMarks bounds maxIntegerTicks true)

/-- The text at a mark of an axis of whole numbers. -/
def integerLabel (mark : Mark) : String :=
  Numeral.signedDecimal mark.position.roundHalfAway.toInt

end StreamCharts
