import StreamCharts.Binary.Rounding

/-!
# Series of points

A series is what a chart draws: pairs of coordinates in the order in which they were read. Both coordinates of a point are kept
together, so a series has as many first coordinates as second ones. Main definitions: `Series`, `AxisValue`, the values that
an axis can show, and `Series.points`.
-/

namespace StreamCharts

/-- A value that has a place on an axis. -/
class AxisValue (α : Type) where
  /-- The place of a value. -/
  toAxis : α → Binary64

/-- An integer stands at the nearest number. -/
instance : AxisValue Int64 := ⟨fun n => Binary.ofInt .double n.toInt⟩

/-- A number stands at itself. -/
instance : AxisValue Binary64 := ⟨id⟩

/-- Pairs of coordinates in order. -/
structure Series (α β : Type) where
  pairs : List (α × β)
deriving DecidableEq

namespace Series

variable {α β : Type}

/-- The series without points. -/
def empty : Series α β := ⟨[]⟩

/-- The series with one more point. -/
def push (s : Series α β) (x : α) (y : β) : Series α β :=
  ⟨s.pairs ++ [(x, y)]⟩

/-- The first coordinates. -/
def xs (s : Series α β) : List α :=
  s.pairs.map Prod.fst

/-- The second coordinates. -/
def ys (s : Series α β) : List β :=
  s.pairs.map Prod.snd

/-- The number of points. -/
def length (s : Series α β) : Nat :=
  s.pairs.length

/-- Whether a series has no points. -/
def isEmpty (s : Series α β) : Bool :=
  s.pairs.isEmpty

/-- The points of a series as places on the two axes. -/
def points [AxisValue α] [AxisValue β] (s : Series α β) : List (Binary64 × Binary64) :=
  s.pairs.map fun pair => (AxisValue.toAxis pair.1, AxisValue.toAxis pair.2)

end Series

end StreamCharts
