import StreamCharts.Log.Parse
import StreamCharts.Proofs.Input.Delivered

/-!
# Scans of lines

A scan of readings depends only on their outcomes, and it goes on from one part of the readings to the next unless the first part
stops it (`Columns.scan_append`). So a log is scanned as the lines of the bytes that its script delivers
(`Columns.scanLog_of_unbroken`); a failure of the reader adds one error behind the ended lines (`Columns.scanLog_of_broken`).
-/

namespace StreamCharts

variable {α β : Type}

namespace Scan

/-- A scan that goes on with a later one, unless it stopped with an error. -/
def andThen (scan later : Scan α β) : Scan α β :=
  match scan.error? with
  | some _ => scan
  | none => ⟨scan.samples ++ later.samples, later.error?⟩

/-- A point before a scan is a point before what follows the scan. -/
theorem andThen_cons (sample : Sample α β) (scan later : Scan α β) :
    (scan.cons sample).andThen later = (scan.andThen later).cons sample := by
  obtain ⟨samples, _ | e⟩ := scan
  · rfl
  · rfl

/-- A scan without a later part. -/
theorem andThen_nothing (scan : Scan α β) : scan.andThen ⟨[], none⟩ = scan := by
  obtain ⟨samples, _ | e⟩ := scan
  · simp [andThen]
  · rfl

end Scan

/-- What a reading means depends on its outcome only. -/
theorem Row.ofReading_congr (file : String) (line count : Nat) {r r' : Reading} (h : r.outcome = r'.outcome) :
    Row.ofReading file line count r = Row.ofReading file line count r' := by
  rw [Row.ofReading, Row.ofReading, h]

/-- Only the end of the input means the end of the log. -/
theorem Row.outcome_of_ofReading_none {file : String} {line count : Nat} {r : Reading}
    (h : Row.ofReading file line count r = .ok none) : r.outcome = .finished := by
  unfold Row.ofReading at h
  split at h
  · rename_i text _
    cases hrow : Row.ofLine file line count text with
    | ok row => simp [hrow, Except.map] at h
    | error e => simp [hrow, Except.map] at h
  · assumption
  · simp at h

namespace Columns

variable (c : Columns α β) (file : String)

/-! ## Data -/

/-- A scan depends on the outcomes of the readings only. -/
theorem scan_congr (lines : Nat) {rs rs' : List Reading} (h : outcomes rs = outcomes rs') :
    c.scan file lines rs = c.scan file lines rs' := by
  induction rs generalizing rs' lines with
  | nil =>
    obtain rfl : rs' = [] := by simpa [outcomes] using h.symm
    rfl
  | cons r rs ih =>
    cases rs' with
    | nil => simp [outcomes] at h
    | cons r' rs' =>
      simp only [outcomes, List.map_cons, List.cons.injEq] at h
      simp only [scan]
      rw [Row.ofReading_congr file (lines + 1) c.fieldCount h.1, ih (lines + 1) h.2]

/-- A scan goes on from readings that do not end the log to those behind them. -/
theorem scan_append (lines : Nat) (rs rest : List Reading) (h : ∀ r ∈ rs, r.outcome ≠ .finished) :
    c.scan file lines (rs ++ rest) = (c.scan file lines rs).andThen (c.scan file (lines + rs.length) rest) := by
  induction rs generalizing lines with
  | nil => simp [scan, Scan.andThen]
  | cons r rs ih =>
    obtain ⟨hr, hrs⟩ := List.forall_mem_cons.mp h
    rw [List.cons_append, scan, scan]
    cases hrow : Row.ofReading file (lines + 1) c.fieldCount r with
    | error e => rfl
    | ok row? =>
      cases row? with
      | none => exact absurd (Row.outcome_of_ofReading_none hrow) hr
      | some row =>
        cases hsample : c.sample row with
        | error e => simp only [hsample, Scan.andThen]
        | ok sample =>
          simp only [hsample, ih (lines + 1) hrs, Scan.andThen_cons, List.length_cons]
          rw [Nat.add_assoc, Nat.add_comm 1]

/-- The end of the input ends a scan. -/
theorem scan_finished (lines : Nat) {r : Reading} (h : r.outcome = .finished) (rest : List Reading) :
    c.scan file lines (r :: rest) = ⟨[], none⟩ := by
  simp [scan, Row.ofReading, h]

/-- A failed read stops a scan. -/
theorem scan_failed (lines : Nat) {r : Reading} {fault : Fault} (h : r.outcome = .failed fault) (rest : List Reading) :
    c.scan file lines (r :: rest) = ⟨[], some (.notRead file (lines + 1) fault)⟩ := by
  simp [scan, Row.ofReading, h]

/-! ## Whole logs -/

/-- What the readings of a whole log hold. -/
def scanReadings (readings : List Reading) : Scan α β :=
  match readings with
  | [] => ⟨[], none⟩
  | header :: rest =>
    match header.outcome with
    | .line _ => c.scan file 1 rest
    | .finished => ⟨[], none⟩
    | .failed fault => ⟨[], some (.notRead file 1 fault)⟩

/-- What the lines of a whole log hold. -/
def scanLines (ls : List (List UInt8)) : Scan α β :=
  c.scanReadings file (ls.map Reading.ofLine)

/-- The scan of a whole log depends on the outcomes of its readings only. -/
theorem scanReadings_congr {rs rs' : List Reading} (h : outcomes rs = outcomes rs') :
    c.scanReadings file rs = c.scanReadings file rs' := by
  cases rs with
  | nil =>
    obtain rfl : rs' = [] := by simpa [outcomes] using h.symm
    rfl
  | cons r rs =>
    cases rs' with
    | nil => simp [outcomes] at h
    | cons r' rs' =>
      simp only [outcomes, List.map_cons, List.cons.injEq] at h
      simp only [scanReadings]
      rw [h.1, c.scan_congr file 1 h.2]

/-- Behind the end of the input nothing is scanned. -/
theorem scanReadings_append_finished (rs : List Reading) (h : ∀ r ∈ rs, r.outcome ≠ .finished) {last : Reading}
    (hlast : last.outcome = .finished) (rest : List Reading) :
    c.scanReadings file (rs ++ last :: rest) = c.scanReadings file rs := by
  cases rs with
  | nil => simp [scanReadings, hlast]
  | cons header rs =>
    obtain ⟨-, hrs⟩ := List.forall_mem_cons.mp h
    simp only [scanReadings, List.cons_append]
    rw [c.scan_append file 1 rs _ hrs, c.scan_finished file _ hlast, Scan.andThen_nothing]

/-- A failed read stops the scan of a log, unless it was stopped before. -/
theorem scanReadings_append_failed (rs : List Reading) (h : ∀ r ∈ rs, r.outcome ≠ .finished) {last : Reading} {fault : Fault}
    (hlast : last.outcome = .failed fault) (rest : List Reading) :
    c.scanReadings file (rs ++ last :: rest) =
      (c.scanReadings file rs).andThen ⟨[], some (.notRead file (rs.length + 1) fault)⟩ := by
  cases rs with
  | nil => simp [scanReadings, hlast, Scan.andThen]
  | cons header rs =>
    obtain ⟨hheader, hrs⟩ := List.forall_mem_cons.mp h
    simp only [scanReadings, List.cons_append]
    cases hout : header.outcome with
    | line text =>
      simp only
      rw [c.scan_append file 1 rs _ hrs, c.scan_failed file _ hlast, List.length_cons, Nat.add_comm 1]
    | finished => exact absurd hout hheader
    | failed fault => rfl

/-- A log that is read without a failure is scanned as the lines that are delivered. -/
theorem scanLog_of_unbroken {script : Script} (h : script.failure? = none) :
    c.scanLog file script = c.scanLines file (Text.lines script.delivered) := by
  have houtcomes : outcomes script.readings =
      outcomes ((Text.lines script.delivered).map Reading.ofLine ++ [⟨.finished, []⟩]) := by
    rw [outcomes_of_unbroken script h, outcomes_append, outcomes_ofLine]
    rfl
  rw [show c.scanLog file script = c.scanReadings file script.readings from rfl, c.scanReadings_congr file houtcomes,
    c.scanReadings_append_finished file _ (Reading.ofLine_ne_finished _) rfl, scanLines]

/-- A log with a content is scanned as the lines of its content. -/
theorem scanLog_of_content {script : Script} {bytes : List UInt8} (h : script.content = .ok bytes) :
    c.scanLog file script = c.scanLines file (Text.lines bytes) := by
  obtain ⟨hunbroken, rfl⟩ := (Script.content_eq_ok_iff script bytes).mp h
  exact c.scanLog_of_unbroken file hunbroken

/-- A log whose reader fails is scanned as the ended lines before the failure, which then stops the scan. -/
theorem scanLog_of_broken {script : Script} {fault : Fault} (h : script.failure? = some fault) :
    c.scanLog file script = (c.scanLines file (Text.lines (Text.completed script.delivered))).andThen
      ⟨[], some (.notRead file (script.delivered.count Text.newline + 1) fault)⟩ := by
  have houtcomes : outcomes script.readings =
      outcomes ((Text.lines (Text.completed script.delivered)).map Reading.ofLine ++
        ⟨.failed fault, []⟩ :: script.behindFailure.readings) := by
    rw [outcomes_of_broken script h, outcomes_append, outcomes_ofLine]
    rfl
  rw [show c.scanLog file script = c.scanReadings file script.readings from rfl, c.scanReadings_congr file houtcomes,
    c.scanReadings_append_failed file _ (Reading.ofLine_ne_finished _) rfl, scanLines, List.length_map, length_lines_completed]

end Columns

end StreamCharts
