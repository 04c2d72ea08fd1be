import StreamCharts.Input.Reading
import StreamCharts.Log.Error
import StreamCharts.Text.Blank

/-!
# Rows of a log

A log is a header line, which is not looked at, and rows of fields. Main definitions: `Row.ofReading`, which makes a row of one
reading, and `Loader`, which goes through a log row by row and can go on after an error.
-/

namespace StreamCharts

/-- A row of a log with the place it was read from. -/
structure Row where
  file : String
  line : Nat
  fields : List String
deriving DecidableEq

namespace Row

/-- The row with the given number of fields in a text that was read as a line. -/
def ofLine (file : String) (line count : Nat) (text : String) : Except LogError Row :=
  let fields := Text.fields text
  if fields.length = count then .ok ⟨file, line, fields⟩
  else .error (.fieldCount file line count fields.length)

/-- What a reading of the given line means: a row, the end of the log, or an error. -/
def ofReading (file : String) (line count : Nat) (reading : Reading) : Except LogError (Option Row) :=
  match reading.outcome with
  | .line text => (ofLine file line count text).map some
  | .finished => .ok none
  | .failed fault => .error (.notRead file line fault)

/-- The value of a field, by the reader of its type. -/
def value {α : Type} (row : Row) (index : Nat) (column : String) (read? : String → Option α) : Except LogError α :=
  let token := row.fields.getD index ""
  match read? token with
  | some value => .ok value
  | none => .error (.invalidNumber row.file row.line column token)

end Row

/-- A log that is gone through row by row: what is still to be read, how many lines have been read, and whether the header has
been passed. -/
structure Loader where
  file : String
  pending : List Reading
  lines : Nat
  headerPassed : Bool
deriving DecidableEq

namespace Loader

/-- A log from its beginning. -/
def ofScript (file : String) (script : Script) : Loader :=
  ⟨file, script.readings, 0, false⟩

/-- The loader behind its next reading; a line counts only if it was read. -/
def advance (loader : Loader) : Loader :=
  match loader.pending with
  | [] => loader
  | reading :: pending =>
    let lines := match reading.outcome with
      | .line _ => loader.lines + 1
      | _ => loader.lines
    { loader with pending, lines }

/-- The next reading of a loader. -/
def peek (loader : Loader) : Reading :=
  loader.pending.headD ⟨.finished, []⟩

/-- The next row of a loader that has passed its header. -/
def nextRow (loader : Loader) (count : Nat) : Except LogError (Option Row) × Loader :=
  (Row.ofReading loader.file (loader.lines + 1) count loader.peek, loader.advance)

/-- The next row, or nothing at the end of the log. The first call passes the header; if that fails or the log ends there, no
row is read. -/
def next (loader : Loader) (count : Nat) : Except LogError (Option Row) × Loader :=
  if loader.headerPassed then loader.nextRow count
  else
    let behind := { loader.advance with headerPassed := true }
    match loader.peek.outcome with
    | .line _ => behind.nextRow count
    | .finished => (.ok none, behind)
    | .failed fault => (.error (.notRead loader.file (loader.lines + 1) fault), behind)

end Loader

end StreamCharts
