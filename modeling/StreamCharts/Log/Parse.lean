import StreamCharts.Binary.Arithmetic
import StreamCharts.Binary.Shortest
import StreamCharts.Journal.Record
import StreamCharts.Log.Kind
import StreamCharts.Log.Row
import StreamCharts.Log.Series

/-!
# Logs as series

A log is read as a whole: every row must be well formed, and the first that is not decides the error. Main definitions:
`Columns`, the two columns of a log that are kept, `Columns.scanLog`, and the three logs `parseAdaptation`, `parseBuffer` and
`parseThroughput`; the last keeps one row of each timestamp.
-/

namespace StreamCharts

/-- The number of fields in a row, and the two columns that are kept: their names and the readers of their types. -/
structure Columns (α β : Type) where
  fieldCount : Nat
  first : String
  readFirst? : String → Option α
  second : String
  readSecond? : String → Option β

/-- The point of one row with the line it stands on. -/
structure Sample (α β : Type) where
  line : Nat
  x : α
  y : β
deriving DecidableEq

/-- What a log holds as far as it can be read: its points, and the error that stopped the reading, if one did. -/
structure Scan (α β : Type) where
  samples : List (Sample α β)
  error? : Option LogError
deriving DecidableEq

namespace Scan

variable {α β : Type}

/-- A scan with one more point before the others. -/
def cons (sample : Sample α β) (scan : Scan α β) : Scan α β :=
  { scan with samples := sample :: scan.samples }

/-- The points of a log that was read to its end. -/
def result (scan : Scan α β) : Except LogError (List (Sample α β)) :=
  match scan.error? with
  | some e => .error e
  | none => .ok scan.samples

end Scan

namespace Columns

variable {α β : Type}

/-- The point of a row. -/
def sample (c : Columns α β) (row : Row) : Except LogError (Sample α β) := do
  let x ← row.value 0 c.first c.readFirst?
  let y ← row.value 1 c.second c.readSecond?
  return ⟨row.line, x, y⟩

/-- What the readings behind line `lines` hold, up to the end or the first error. -/
def scan (c : Columns α β) (file : String) (lines : Nat) : List Reading → Scan α β
  | [] => ⟨[], none⟩
  | reading :: rest =>
    match Row.ofReading file (lines + 1) c.fieldCount reading with
    | .error e => ⟨[], some e⟩
    | .ok none => ⟨[], none⟩
    | .ok (some row) =>
      match c.sample row with
      | .error e => ⟨[], some e⟩
      | .ok sample => (c.scan file (lines + 1) rest).cons sample

/-- What a log holds. Its header is passed unread, but it must be a line. -/
def scanLog (c : Columns α β) (file : String) (script : Script) : Scan α β :=
  match script.readings with
  | [] => ⟨[], none⟩
  | header :: rest =>
    match header.outcome with
    | .line _ => c.scan file 1 rest
    | .finished => ⟨[], none⟩
    | .failed fault => ⟨[], some (.notRead file 1 fault)⟩

end Columns

/-- Segments and the quality requested for each. -/
abbrev AdaptationSeries := Series Int64 Int64

/-- Times and the level of the buffer. -/
abbrev BufferSeries := Series Binary64 Binary64

/-- Times and the measured bandwidth. -/
abbrev ThroughputSeries := Series Binary64 Int64

/-- The columns of an adaptation log. -/
def adaptationColumns : Columns Int64 Int64 :=
  ⟨LogKind.adaptation.fieldCount, "segment index", Numeral.int64?, "representation index", Numeral.int64?⟩

/-- The columns of a buffer log. -/
def bufferColumns : Columns Binary64 Binary64 :=
  ⟨LogKind.buffer.fieldCount, "timestamp", Binary.ofText? .double, "buffer level", Binary.ofText? .double⟩

/-- The columns of a throughput log. -/
def throughputColumns : Columns Binary64 Int64 :=
  ⟨LogKind.throughput.fieldCount, "timestamp", Binary.ofText? .double, "bandwidth", Numeral.int64?⟩

/-- The points of samples. -/
def Series.ofSamples {α β : Type} (samples : List (Sample α β)) : Series α β :=
  ⟨samples.map fun sample => (sample.x, sample.y)⟩

/-- Reads an adaptation log. -/
def parseAdaptation (file : String) (script : Script) : Except LogError AdaptationSeries :=
  (adaptationColumns.scanLog file script).result.map Series.ofSamples

/-- Reads a buffer log; rows that repeat a time are kept. -/
def parseBuffer (file : String) (script : Script) : Except LogError BufferSeries :=
  (bufferColumns.scanLog file script).result.map Series.ofSamples

/-- What tells timestamps apart: the number itself, with the two zeros as one. NaN is told apart from everything, so it has no
key. -/
def timestampKey? (time : Binary64) : Option Binary64 :=
  if time.isNaN then none else some (time + 0)

/-- Splits samples into those whose timestamp was not seen before, and the repeated ones. -/
def splitRepeated (seen : List Binary64) :
    List (Sample Binary64 Int64) → List (Sample Binary64 Int64) × List (Sample Binary64 Int64)
  | [] => ([], [])
  | sample :: rest =>
    match timestampKey? sample.x with
    | none =>
      let (kept, dropped) := splitRepeated seen rest
      (sample :: kept, dropped)
    | some key =>
      if seen.contains key then
        let (kept, dropped) := splitRepeated seen rest
        (kept, sample :: dropped)
      else
        let (kept, dropped) := splitRepeated (key :: seen) rest
        (sample :: kept, dropped)

/-- The note on a row that was dropped because it repeats a timestamp. -/
def repeatedRecord (file : String) (sample : Sample Binary64 Int64) : Record :=
  ⟨.debug, .logs, file ++ ":" ++ Numeral.decimal sample.line ++ ": dropping duplicate timestamp " ++ sample.x.display⟩

/-- Reads a throughput log, with a note on each row that repeats a timestamp. Of the rows with one timestamp the first is kept. -/
def parseThroughput (file : String) (script : Script) : Except LogError ThroughputSeries × Journal :=
  let scan := throughputColumns.scanLog file script
  let (kept, dropped) := splitRepeated [] scan.samples
  (scan.result.map fun _ => Series.ofSamples kept, dropped.map (repeatedRecord file))

end StreamCharts
