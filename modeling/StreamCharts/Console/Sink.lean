import StreamCharts.Fault
import StreamCharts.Text.Bytes

/-!
# Output

Where prompts are written. An output may have room for only so many bytes, and may hand on what was written only so many times.
Main definitions: `Sink`, `Sink.write` and `Sink.flush`.
-/

namespace StreamCharts

/-- An output: the bytes written so far, the room that is left and the number of flushes that still succeed, if these are
limited. -/
structure Sink where
  written : List UInt8
  room : Option Nat
  flushes : Option Nat
deriving DecidableEq

namespace Sink

/-- An output without limits. -/
def unlimited : Sink := ⟨[], none, none⟩

/-- Writes bytes as far as there is room; it is a fault if some find none. -/
def writeBytes (sink : Sink) (bytes : List UInt8) : Except Fault Unit × Sink :=
  match sink.room with
  | none => (.ok (), { sink with written := sink.written ++ bytes })
  | some room =>
    let sink := { sink with written := sink.written ++ bytes.take room, room := some (room - bytes.length) }
    (if bytes.length ≤ room then .ok () else .error .outputFull, sink)

/-- Writes a text. -/
def write (sink : Sink) (text : String) : Except Fault Unit × Sink :=
  sink.writeBytes (Text.utf8 text)

/-- Hands on what was written. -/
def flush (sink : Sink) : Except Fault Unit × Sink :=
  match sink.flushes with
  | none => (.ok (), sink)
  | some 0 => (.error .flushFailed, sink)
  | some (n + 1) => (.ok (), { sink with flushes := some n })

/-- Writes a text and hands it on. -/
def print (sink : Sink) (text : String) : Except Fault Unit × Sink :=
  match sink.write text with
  | (.ok (), sink) => sink.flush
  | (.error fault, sink) => (.error fault, sink)

/-- What was written, as text. -/
def text (sink : Sink) : String :=
  Text.legible sink.written

end Sink

end StreamCharts
