import StreamCharts.Proofs.Input.Lines

/-!
# What a script delivers

A script of chunks, interruptions and failures, read line by line, against the bytes it delivers. `Script.delivered` are the
bytes before the first failure. Without a failure the readings are the lines of these bytes and the end
(`outcomes_of_unbroken`); with one they are the ended lines, the failure, and what is read behind it (`outcomes_of_broken`).
-/

namespace StreamCharts

open Text

namespace Script

/-- The bytes that a script delivers before its first failure. -/
def delivered : Script → List UInt8
  | [] => []
  | .bytes chunk :: script => chunk ++ delivered script
  | .failure _ :: _ => []
  | .interruption :: script => delivered script
  | .change _ :: script => delivered script

/-- The first failure of a script. -/
def failure? : Script → Option Fault
  | [] => none
  | .bytes _ :: script => failure? script
  | .failure fault :: _ => some fault
  | .interruption :: script => failure? script
  | .change _ :: script => failure? script

/-- What is left of a script behind its first failure. -/
def behindFailure : Script → Script
  | [] => []
  | .bytes _ :: script => behindFailure script
  | .failure _ :: script => script
  | .interruption :: script => behindFailure script
  | .change _ :: script => behindFailure script

/-- A script has a content if it has no failure, and then all it delivers is its content. -/
theorem content_eq_ok_iff (script : Script) (bytes : List UInt8) :
    script.content = .ok bytes ↔ script.failure? = none ∧ script.delivered = bytes := by
  induction script generalizing bytes with
  | nil => simp [content, failure?, delivered]
  | cons delivery script ih =>
    cases delivery with
    | bytes chunk =>
      cases h : content script with
      | error fault =>
        have hno := fun bytes => (not_congr (ih bytes)).mp (by simp [h])
        simp only [content, h, Except.map, failure?, reduceCtorEq, false_iff]
        exact fun hf => hno (delivered script) ⟨hf.1, rfl⟩
      | ok rest =>
        obtain ⟨hf, hd⟩ := (ih rest).mp h
        simp [content, h, Except.map, failure?, delivered, hf, hd]
    | interruption => exact ih bytes
    | failure fault => simp [content, failure?]
    | change edits => exact ih bytes

end Script

/-- The outcomes of readings, one after another. -/
def outcomes (readings : List Reading) : List Outcome :=
  readings.map (·.outcome)

/-- Whether a request gives a line. -/
def Outcome.isLine : Outcome → Bool
  | .line _ => true
  | .finished => false
  | .failed _ => false

/-- The outcomes of readings and of those behind them. -/
theorem outcomes_append (rs rs' : List Reading) : outcomes (rs ++ rs') = outcomes rs ++ outcomes rs' :=
  List.map_append

/-- The reading of a line by itself. -/
def Reading.ofLine (line : List UInt8) : Reading :=
  ⟨Outcome.ofBytes line, []⟩

/-- The outcomes of lines that are read by themselves. -/
theorem outcomes_ofLine (ls : List (List UInt8)) : outcomes (ls.map Reading.ofLine) = ls.map Outcome.ofBytes := by
  simp [outcomes, Reading.ofLine, Function.comp_def]

/-- A line is never read as the end. -/
theorem Outcome.ofBytes_ne_finished (line : List UInt8) : Outcome.ofBytes line ≠ .finished := by
  unfold Outcome.ofBytes
  split
  · exact nofun
  · exact nofun

/-- No reading of lines is the end. -/
theorem Reading.ofLine_ne_finished (ls : List (List UInt8)) : ∀ r ∈ ls.map Reading.ofLine, r.outcome ≠ .finished := by
  intro r hr
  obtain ⟨line, -, rfl⟩ := List.mem_map.mp hr
  exact Outcome.ofBytes_ne_finished line

/-! ## One delivery -/

/-- A chunk gives the lines that it completes; behind them the reading goes on with the line it leaves open. -/
theorem outcomes_readingsAfter_bytes (pending : List UInt8) (changes : List Edit) (chunk : List UInt8) (script : Script) :
    ∃ later, outcomes (readingsAfter pending changes (.bytes chunk :: script)) =
      (completeLines pending chunk).1.map Outcome.ofBytes ++
        outcomes (readingsAfter (completeLines pending chunk).2 later script) := by
  rcases h : completeLines pending chunk with ⟨_ | ⟨line, ls⟩, rest⟩
  · refine ⟨changes, ?_⟩
    simp [readingsAfter, h]
  · refine ⟨[], ?_⟩
    simp [readingsAfter, h, outcomes, Function.comp_def]

/-- At the end of a script the open line is read, and then the end. -/
theorem outcomes_readingsAfter_nil (pending : List UInt8) (changes : List Edit) :
    outcomes (readingsAfter pending changes []) = (openLine pending).map Outcome.ofBytes ++ [.finished] := by
  cases pending with
  | nil => rfl
  | cons byte pending => rfl

/-! ## Whole scripts -/

/-- A script without failures that is read after an unfinished line. -/
theorem outcomes_readingsAfter_of_unbroken (script : Script) (h : script.failure? = none) (pending : List UInt8)
    (changes : List Edit) :
    outcomes (readingsAfter pending changes script) =
      ((completeLines pending script.delivered).1 ++ openLine (completeLines pending script.delivered).2).map
        Outcome.ofBytes ++ [.finished] := by
  induction script generalizing pending changes with
  | nil => exact outcomes_readingsAfter_nil pending changes
  | cons delivery script ih =>
    cases delivery with
    | bytes chunk =>
      obtain ⟨later, hb⟩ := outcomes_readingsAfter_bytes pending changes chunk script
      rw [hb, ih h, Script.delivered, completeLines_append]
      simp only [List.map_append, List.append_assoc]
    | interruption => exact ih h pending changes
    | failure fault => exact absurd h (by simp [Script.failure?])
    | change edits => exact ih h pending (changes ++ edits)

/-- A script with a failure that is read after an unfinished line; the line that the failure interrupts is not read. -/
theorem outcomes_readingsAfter_of_broken (script : Script) {fault : Fault} (h : script.failure? = some fault)
    (pending : List UInt8) (changes : List Edit) :
    outcomes (readingsAfter pending changes script) =
      (completeLines pending script.delivered).1.map Outcome.ofBytes ++
        .failed fault :: outcomes script.behindFailure.readings := by
  induction script generalizing pending changes with
  | nil => exact absurd h (by simp [Script.failure?])
  | cons delivery script ih =>
    cases delivery with
    | bytes chunk =>
      obtain ⟨later, hb⟩ := outcomes_readingsAfter_bytes pending changes chunk script
      rw [hb, ih h, Script.delivered, completeLines_append]
      simp only [List.map_append, List.append_assoc]
      rfl
    | interruption => exact ih h pending changes
    | failure fault' =>
      obtain rfl : fault' = fault := by simpa [Script.failure?] using h
      rfl
    | change edits => exact ih h pending (changes ++ edits)

/-- Without a failure the readings are the lines of the delivered bytes, and the end. -/
theorem outcomes_of_unbroken (script : Script) (h : script.failure? = none) :
    outcomes script.readings = (lines script.delivered).map Outcome.ofBytes ++ [.finished] := by
  rw [Script.readings, outcomes_readingsAfter_of_unbroken script h, lines_completeLines]

/-- With a failure the readings are the ended lines before it, the failure, and what is read behind it. -/
theorem outcomes_of_broken (script : Script) {fault : Fault} (h : script.failure? = some fault) :
    outcomes script.readings =
      (lines (completed script.delivered)).map Outcome.ofBytes ++ .failed fault :: outcomes script.behindFailure.readings := by
  rw [Script.readings, outcomes_readingsAfter_of_broken script h, lines_completed]

end StreamCharts
