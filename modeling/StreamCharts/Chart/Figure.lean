import StreamCharts.Chart.Ticks
import StreamCharts.Log.Scenario

/-!
# The figure of a scenario

A scenario is drawn as three plots, one below the other. Main definitions: `Subplot` and `figure`.
-/

namespace StreamCharts

/-- All that is needed to draw one plot. -/
structure Subplot where
  /-- The name by which the plot is told apart from others. -/
  id : String
  title : String
  xLabel : String
  yLabel : String
  xTicks : TickPolicy
  yTicks : TickPolicy
  points : List (Binary64 × Binary64)
deriving DecidableEq

/-- The plot of the requested quality, with whole numbers for the segments. -/
def adaptationPlot (series : AdaptationSeries) : Subplot :=
  ⟨"adaptation_plot", "Requested Quality vs. Segment Index", "Segment Index", "Requested Quality", .integer, .auto,
    series.points⟩

/-- The plot of the buffer level. -/
def bufferPlot (series : BufferSeries) : Subplot :=
  ⟨"buffer_plot", "Buffer Level over Time", "Time (s)", "Buffer Level (s)", .atMost maxMajorTicks, .atMost maxMajorTicks,
    series.points⟩

/-- The plot of the bandwidth. -/
def throughputPlot (series : ThroughputSeries) : Subplot :=
  ⟨"throughput_plot", "Throughput over Time", "Time (s)", "Bandwidth (bytes)", .atMost maxMajorTicks, .atMost maxMajorTicks,
    series.points⟩

/-- The plots of a scenario, from top to bottom. -/
def figure (logs : ScenarioLogs) : List Subplot :=
  [adaptationPlot logs.adaptation, bufferPlot logs.buffer, throughputPlot logs.throughput]

end StreamCharts
