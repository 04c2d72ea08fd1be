import StreamCharts.Log.Scenario
import StreamCharts.Proofs.Log.Scan

/-!
# Logs and the way in which their bytes arrive

Whether the bytes of a log arrive together or in chunks, with or without interruptions, makes no difference to what is read. When
the reader fails, the ended lines before the failure are judged as ever, and only if they are in order the failure is the error;
of the line that it interrupts no byte is looked at (`logs_read_by_delivered_bytes`).
-/

namespace StreamCharts

/-- What the result on the ended lines of a log becomes when the reader fails on the line behind them: an error stands, and
a success gives way to the failure. -/
def brokenOff {γ : Type} (file : String) (line : Nat) (fault : Fault) : Except LogError γ → Except LogError γ
  | .error e => .error e
  | .ok _ => .error (.notRead file line fault)

/-- A log whose reader failed is not read. -/
theorem brokenOff_ne_ok {γ : Type} (file : String) (line : Nat) (fault : Fault) (result : Except LogError γ) (series : γ) :
    brokenOff file line fault result ≠ .ok series := by
  cases result with
  | error e => exact nofun
  | ok series' => exact nofun

/-- An error behind a scan breaks off what is made of the scan. -/
theorem Scan.result_andThen_notRead {α β γ : Type} (scan : Scan α β) (file : String) (line : Nat) (fault : Fault)
    (f : List (Sample α β) → γ) :
    (scan.andThen ⟨[], some (.notRead file line fault)⟩).result.map f = brokenOff file line fault (scan.result.map f) := by
  obtain ⟨samples, _ | e⟩ := scan
  · rfl
  · rfl

/-- An error behind a scan leaves its points as they are. -/
theorem Scan.samples_andThen_error {α β : Type} (scan : Scan α β) (e : LogError) :
    (scan.andThen ⟨[], some e⟩).samples = scan.samples := by
  obtain ⟨samples, _ | e'⟩ := scan
  · simp [andThen]
  · rfl

namespace Columns

variable {α β : Type} (c : Columns α β) (file : String)

/-- Bytes that arrive together are scanned as their lines. -/
theorem scanLog_bytes (bytes : List UInt8) : c.scanLog file [.bytes bytes] = c.scanLines file (Text.lines bytes) :=
  c.scanLog_of_content file (by simp [Script.content, Except.map])

/-- Without a failure a log is scanned as if its bytes had arrived together. -/
theorem scanLog_eq_of_unbroken {script : Script} (h : script.failure? = none) :
    c.scanLog file script = c.scanLog file [.bytes script.delivered] := by
  rw [c.scanLog_of_unbroken file h, c.scanLog_bytes]

/-- With a failure a log is scanned as if its ended lines had arrived together, and then the scan is stopped. -/
theorem scanLog_eq_of_broken {script : Script} {fault : Fault} (h : script.failure? = some fault) :
    c.scanLog file script = (c.scanLog file [.bytes (Text.completed script.delivered)]).andThen
      ⟨[], some (.notRead file (script.delivered.count Text.newline + 1) fault)⟩ := by
  rw [c.scanLog_of_broken file h, c.scanLog_bytes]

end Columns

section Arrival

variable (file : String) {script : Script}

/-- Without a failure the three logs are read as if their bytes had arrived together. -/
theorem logs_of_unbroken (h : script.failure? = none) :
    parseAdaptation file script = parseAdaptation file [.bytes script.delivered] ∧
      parseBuffer file script = parseBuffer file [.bytes script.delivered] ∧
      parseThroughput file script = parseThroughput file [.bytes script.delivered] := by
  refine ⟨?_, ?_, ?_⟩
  · rw [parseAdaptation, adaptationColumns.scanLog_eq_of_unbroken file h, ← parseAdaptation]
  · rw [parseBuffer, bufferColumns.scanLog_eq_of_unbroken file h, ← parseBuffer]
  · rw [parseThroughput, throughputColumns.scanLog_eq_of_unbroken file h, ← parseThroughput]

/-- With a failure the three logs are read as if their ended lines had arrived together, and then broken off. -/
theorem logs_of_broken {fault : Fault} (h : script.failure? = some fault) :
    parseAdaptation file script = brokenOff file (script.delivered.count Text.newline + 1) fault
        (parseAdaptation file [.bytes (Text.completed script.delivered)]) ∧
      parseBuffer file script = brokenOff file (script.delivered.count Text.newline + 1) fault
        (parseBuffer file [.bytes (Text.completed script.delivered)]) ∧
      parseThroughput file script =
        (brokenOff file (script.delivered.count Text.newline + 1) fault
          (parseThroughput file [.bytes (Text.completed script.delivered)]).1,
          (parseThroughput file [.bytes (Text.completed script.delivered)]).2) := by
  refine ⟨?_, ?_, ?_⟩
  · rw [parseAdaptation, adaptationColumns.scanLog_eq_of_broken file h, Scan.result_andThen_notRead, ← parseAdaptation]
  · rw [parseBuffer, bufferColumns.scanLog_eq_of_broken file h, Scan.result_andThen_notRead, ← parseBuffer]
  · rw [parseThroughput, throughputColumns.scanLog_eq_of_broken file h, Scan.samples_andThen_error]
    simp only [Scan.result_andThen_notRead]
    rfl

end Arrival

/-- The result on a log is that on the bytes that its reader delivers before it first fails, `b`. Without a failure it is the
result on `b` in one chunk, also when the log is opened as a file. With a failure it is never a success: it is the error of the
ended lines of `b` if they have one, and otherwise the failure, on the line behind them; the bytes of that line make no
difference. -/
theorem logs_read_by_delivered_bytes (file : String) (script : Script) :
    (script.failure? = none →
      (parseAdaptation file script = parseAdaptation file [.bytes script.delivered] ∧
        parseBuffer file script = parseBuffer file [.bytes script.delivered] ∧
        parseThroughput file script = parseThroughput file [.bytes script.delivered]) ∧
      ∀ (opener : Opener) (path : String), opener path = .ok script →
        loadAdaptation opener path = parseAdaptation path [.bytes script.delivered] ∧
          loadBuffer opener path = parseBuffer path [.bytes script.delivered] ∧
          loadThroughput opener path = parseThroughput path [.bytes script.delivered]) ∧
    (∀ fault, script.failure? = some fault →
      (parseAdaptation file script = brokenOff file (script.delivered.count Text.newline + 1) fault
          (parseAdaptation file [.bytes (Text.completed script.delivered)]) ∧
        parseBuffer file script = brokenOff file (script.delivered.count Text.newline + 1) fault
          (parseBuffer file [.bytes (Text.completed script.delivered)]) ∧
        (parseThroughput file script).1 = brokenOff file (script.delivered.count Text.newline + 1) fault
          (parseThroughput file [.bytes (Text.completed script.delivered)]).1) ∧
      ((∀ series, parseAdaptation file script ≠ .ok series) ∧ (∀ series, parseBuffer file script ≠ .ok series) ∧
        ∀ series, (parseThroughput file script).1 ≠ .ok series) ∧
      ∀ script', script'.failure? = some fault → Text.completed script'.delivered = Text.completed script.delivered →
        parseAdaptation file script' = parseAdaptation file script ∧ parseBuffer file script' = parseBuffer file script ∧
          parseThroughput file script' = parseThroughput file script) := by
  refine ⟨fun h => ⟨logs_of_unbroken file h, ?_⟩, fun fault h => ?_⟩
  · intro opener path hopen
    simp only [loadAdaptation, loadBuffer, loadThroughput, hopen]
    exact logs_of_unbroken path h
  · obtain ⟨ha, hb, ht⟩ := logs_of_broken file h
    refine ⟨⟨ha, hb, by rw [ht]⟩, ⟨?_, ?_, ?_⟩, ?_⟩
    · intro series
      rw [ha]
      exact brokenOff_ne_ok _ _ _ _ _
    · intro series
      rw [hb]
      exact brokenOff_ne_ok _ _ _ _ _
    · intro series
      rw [ht]
      exact brokenOff_ne_ok _ _ _ _ _
    · intro script' h' hended
      obtain ⟨ha', hb', ht'⟩ := logs_of_broken file h'
      have hcount : script'.delivered.count Text.newline = script.delivered.count Text.newline := by
        rw [← length_lines_completed, ← length_lines_completed, hended]
      rw [ha', hb', ht', ha, hb, ht, hended, hcount]
      exact ⟨rfl, rfl, rfl⟩

/-- A log that arrives in pieces, cut inside a character and a field, is read as one piece; a log whose reader fails inside the
row of line 3 has the failure there, also if the bytes of that row are no text. -/
theorem logs_read_in_pieces :
    parseBuffer "log" [.bytes [195], .interruption, .bytes [169, 10, 49], .bytes [50, 32, 51]] =
        parseBuffer "log" [.bytes [195, 169, 10, 49, 50, 32, 51]] ∧
      loadBuffer (fun _ => .ok [.bytes [195], .interruption, .bytes [169, 10, 49], .bytes [50, 32, 51]]) "log" =
        parseBuffer "log" [.bytes [195, 169, 10, 49, 50, 32, 51]] ∧
      parseBuffer "log" [.bytes (Text.utf8 "h\n1 2\n"), .bytes [255], .failure .missing] =
        .error (.notRead "log" 3 .missing) := by
  obtain ⟨hpieces, -⟩ := logs_read_by_delivered_bytes "log"
    [.bytes [195], .interruption, .bytes [169, 10, 49], .bytes [50, 32, 51]]
  obtain ⟨⟨-, hbuffer, -⟩, hopened⟩ := hpieces rfl
  obtain ⟨-, hloaded, -⟩ := hopened
    (fun _ => .ok [.bytes [195], .interruption, .bytes [169, 10, 49], .bytes [50, 32, 51]]) "log" rfl
  obtain ⟨-, hbroken⟩ := logs_read_by_delivered_bytes "log" [.bytes (Text.utf8 "h\n1 2\n"), .bytes [255], .failure .missing]
  obtain ⟨⟨-, hfailed, -⟩, -⟩ := hbroken .missing rfl
  refine ⟨hbuffer, hloaded, hfailed.trans ?_⟩
  decide +kernel

end StreamCharts
