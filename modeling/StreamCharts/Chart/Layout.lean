import StreamCharts.Binary.Arithmetic

/-!
# Layout of the window

The plots share the height of the window equally, each below its heading, but never shrink below a least height. Lengths are exact.
Main definitions: `Layout.plotHeight`, `Layout.arrangement`, what stands where in the window, and `Layout.visibleHeadings`.
-/

namespace StreamCharts.Layout

/-- The space between the edge of the window and what is in it. -/
def margin : Rat := 8

/-- The space between two things that stand one below the other. -/
def spacing : Rat := 3

/-- The height of a line of heading text. -/
def headingText : Rat := 331 / 16

/-- The height that a heading takes when it is laid out. -/
def headingHeight : Rat := 21

/-- The height below which a plot does not shrink. -/
def leastPlotHeight : Rat := 80

/-- The height of each of `count` plots in a window of the given height. -/
def plotHeight (count : Nat) (height : Rat) : Rat :=
  let share := (height - 2 * margin - count * (headingText + 2 * spacing)) / count
  if share < leastPlotHeight then leastPlotHeight else share

/-- What is put into the window. -/
inductive Widget where
  | heading (title : String)
  | plot (height : Rat)

/-- The height that a widget takes. -/
def Widget.height : Widget → Rat
  | heading _ => headingHeight
  | plot height => height

/-- A widget, and the distance from the top of the window to its top. -/
structure Placed where
  widget : Widget
  top : Rat

/-- The distance from the top of the window to the end of a widget. -/
def Placed.bottom (placed : Placed) : Rat :=
  placed.top + placed.widget.height

/-- The title of a heading, with the distance from the top of the window to the top of the heading. -/
def Placed.heading? : Placed → Option (String × Rat)
  | ⟨.heading title, top⟩ => some (title, top)
  | ⟨.plot _, _⟩ => none

/-- Widgets one below the other, the first of them at the given distance from the top of the window. -/
def stack (top : Rat) : List Widget → List Placed
  | [] => []
  | widget :: rest => ⟨widget, top⟩ :: stack (top + widget.height + spacing) rest

/-- The headings and plots of charts, which are told apart by their titles, from top to bottom. -/
def widgets (titles : List String) (plotHeight : Rat) : List Widget :=
  titles.flatMap fun title => [.heading title, .plot plotHeight]

/-- All that stands in a window of the given height. -/
def arrangement (titles : List String) (height : Rat) : List Placed :=
  stack margin (widgets titles (plotHeight titles.length height))

/-- The headings from top to bottom, with the distance of each from the top of the window. -/
def headings (titles : List String) (height : Rat) : List (String × Rat) :=
  (arrangement titles height).filterMap Placed.heading?

/-- The headings that begin inside the window or on its lower edge, from top to bottom, with the distance of each from the top to the
nearest whole number. -/
def visibleHeadings (titles : List String) (height : Rat) : List (String × Int) :=
  (headings titles height).filterMap fun (title, top) =>
    if top ≤ height then some (title, Binary.nearestWhole top) else none

end StreamCharts.Layout
