import StreamCharts.Input.Script

/-!
# Readings

A script seen line by line: what each request for the next line gives. A line ends behind a newline byte or where the input ends;
it must be valid UTF-8, but an invalid line is consumed like any other. A failed read loses the bytes of the line it
interrupts, and the next request goes on behind it. Main definitions: `Reading`, and `Script.readings`.
-/

namespace StreamCharts

/-- What a request for a line gives. -/
inductive Outcome where
  /-- A line with the newline that ends it, if one does. -/
  | line (text : String)
  /-- The end of the input. -/
  | finished
  /-- A read that failed, or a line that is no text. -/
  | failed (fault : Fault)
deriving DecidableEq

/-- One request for a line: its outcome, and the changes that were made to the files while it was read. -/
structure Reading where
  outcome : Outcome
  changes : List Edit
deriving DecidableEq

/-- The outcome of reading the bytes of a line. -/
def Outcome.ofBytes (bytes : List UInt8) : Outcome :=
  match Text.ofUtf8? bytes with
  | some text => .line text
  | none => .failed .notText

/-- The lines that a chunk completes, after the bytes (last first) of an unfinished line, and the unfinished line it leaves. -/
def completeLines (pending : List UInt8) : List UInt8 → List (List UInt8) × List UInt8
  | [] => ([], pending)
  | byte :: bytes =>
    if byte = Text.newline then
      let (lines, rest) := completeLines [] bytes
      ((byte :: pending).reverse :: lines, rest)
    else completeLines (byte :: pending) bytes

/-- The readings of a script, after the bytes (last first) of an unfinished line and the changes made since it was begun. -/
def readingsAfter (pending : List UInt8) (changes : List Edit) : Script → List Reading
  | [] =>
    if pending.isEmpty then [⟨.finished, changes⟩]
    else [⟨Outcome.ofBytes pending.reverse, changes⟩, ⟨.finished, []⟩]
  | .interruption :: script => readingsAfter pending changes script
  | .failure fault :: script => ⟨.failed fault, changes⟩ :: readingsAfter [] [] script
  | .change edits :: script => readingsAfter pending (changes ++ edits) script
  | .bytes chunk :: script =>
    match completeLines pending chunk with
    | ([], rest) => readingsAfter rest changes script
    | (line :: lines, rest) =>
      ⟨Outcome.ofBytes line, changes⟩ ::
        (lines.map (fun line => ⟨Outcome.ofBytes line, []⟩) ++ readingsAfter rest [] script)

/-- What the requests for a line give, one after another; behind the last reading the input stays at its end. -/
def Script.readings (script : Script) : List Reading :=
  readingsAfter [] [] script

end StreamCharts
