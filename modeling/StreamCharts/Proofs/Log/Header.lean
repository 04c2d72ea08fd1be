import StreamCharts.Proofs.Log.Verdict
import StreamCharts.Proofs.Text.Lines

/-!
# Headers

What the header of a log has to do with the reading of the log. The header is read as a line like any other: if its bytes are no
text, that is the error of the log (`Columns.Decides.error_first_iff`). All headers that are text are passed alike
(`Columns.scanLines_header`). So a log depends on its header by whether it is text (`log_depends_on_header_as_text`), but not by
nothing at all (`header_that_is_no_text_changes_log`).
-/

namespace StreamCharts

/-- The lines of bytes with a header: the header with its newline, and the lines of what stands behind it. -/
theorem Text.lines_header {header : List UInt8} (h : newline ∉ header) (body : List UInt8) :
    lines (header ++ newline :: body) = (header ++ [newline]) :: lines body := by
  rw [← lines_ended_append ⟨header, h, rfl⟩ body, List.append_assoc, List.singleton_append]

namespace Columns

variable {α β : Type} (c : Columns α β)

/-- Headers that are text are passed alike, and so are headers that are none. -/
theorem scanLines_header (file : String) {header header' : List UInt8}
    (h : Text.ofUtf8? header = none ↔ Text.ofUtf8? header' = none) (data : List (List UInt8)) :
    c.scanLines file (header :: data) = c.scanLines file (header' :: data) := by
  simp only [scanLines, scanReadings, List.map_cons, Reading.ofLine, Outcome.ofBytes]
  cases hheader : Text.ofUtf8? header with
  | none => rw [h.mp hheader]
  | some text =>
    obtain ⟨text', htext'⟩ := Option.ne_none_iff_exists'.mp (mt h.mpr (by simp [hheader]))
    rw [htext']

/-- Logs that differ in the header only are scanned alike if both headers are text or neither is. -/
theorem scanLog_header (file : String) {script script' : Script} {header header' body : List UInt8}
    (hn : Text.newline ∉ header) (hn' : Text.newline ∉ header') (h : script.content = .ok (header ++ Text.newline :: body))
    (h' : script'.content = .ok (header' ++ Text.newline :: body))
    (htext : Text.ofUtf8? header = none ↔ Text.ofUtf8? header' = none) : c.scanLog file script = c.scanLog file script' := by
  rw [c.scanLog_of_content file h, c.scanLog_of_content file h', Text.lines_header hn, Text.lines_header hn']
  refine c.scanLines_header file ?_ _
  rw [Text.ofUtf8?_append_newline_eq_none_iff, Text.ofUtf8?_append_newline_eq_none_iff, htext]

/-- That the first line is no text is the error of a log exactly if it is none. -/
theorem Decides.error_first_iff {c : Columns α β} {γ : Type} {file : String} {header : List UInt8} {data : List (List UInt8)}
    {result : Except LogError γ} (h : c.Decides file (header :: data) result) :
    result = .error (.notRead file 1 .notText) ↔ Text.ofUtf8? header = none := by
  rw [h.refused]
  constructor
  · rintro ⟨before, line, hbegins, -, herror⟩
    -- the error names line 1, so no line stands before it
    have hline := herror.line?_eq
    rw [LogError.line?, Option.some.injEq] at hline
    obtain rfl : before = [] := List.length_eq_zero_iff.mp (by omega)
    obtain ⟨rfl, -⟩ := List.cons_prefix_cons.mp hbegins
    cases herror
    assumption
  · intro hnone
    exact ⟨[], header, by simp, by simp [LinesOk], .notText hnone⟩

/-- An ended header gives the error of a log exactly if its bytes are no text. -/
theorem Decides.error_header_iff {c : Columns α β} {γ : Type} {file : String} {header body : List UInt8}
    {result : Except LogError γ} (hn : Text.newline ∉ header)
    (h : c.Decides file (Text.lines (header ++ Text.newline :: body)) result) :
    result = .error (.notRead file 1 .notText) ↔ Text.ofUtf8? header = none := by
  rw [Text.lines_header hn] at h
  rw [h.error_first_iff, Text.ofUtf8?_append_newline_eq_none_iff]

end Columns

/-- A log with an ended header depends on the bytes of the header only by whether they are text. If they are none, that is the
error of the log, and only then; any two headers that are text, whatever they say, lead to the same series with the same notes, or
to the same error. -/
theorem log_depends_on_header_as_text (file : String) {script script' : Script} {header header' body : List UInt8}
    (hn : Text.newline ∉ header) (hn' : Text.newline ∉ header') (h : script.content = .ok (header ++ Text.newline :: body))
    (h' : script'.content = .ok (header' ++ Text.newline :: body)) :
    ((Text.ofUtf8? header = none ↔ Text.ofUtf8? header' = none) →
      parseAdaptation file script = parseAdaptation file script' ∧ parseBuffer file script = parseBuffer file script' ∧
        parseThroughput file script = parseThroughput file script') ∧
    (parseAdaptation file script = .error (.notRead file 1 .notText) ↔ Text.ofUtf8? header = none) ∧
    (parseBuffer file script = .error (.notRead file 1 .notText) ↔ Text.ofUtf8? header = none) ∧
    ((parseThroughput file script).1 = .error (.notRead file 1 .notText) ↔ Text.ofUtf8? header = none) := by
  refine ⟨fun htext => ⟨?_, ?_, ?_⟩, ?_, ?_, ?_⟩
  · rw [parseAdaptation, adaptationColumns.scanLog_header file hn hn' h h' htext, ← parseAdaptation]
  · rw [parseBuffer, bufferColumns.scanLog_header file hn hn' h h' htext, ← parseBuffer]
  · rw [parseThroughput, throughputColumns.scanLog_header file hn hn' h h' htext, ← parseThroughput]
  · exact (decides_parseAdaptation h).error_header_iff hn
  · exact (decides_parseBuffer h).error_header_iff hn
  · exact (decides_parseThroughput h).error_header_iff hn

/-- A header of blanks and one with letters beyond ASCII, which arrives in pieces, are passed alike, and the row behind them repeats
a timestamp in both logs; neither header is the error. -/
theorem blank_header_passed_like_words :
    parseThroughput "log" [.bytes (Text.utf8 " \t\n1 2\n1 3\n")] =
        parseThroughput "log" [.bytes (Text.utf8 "Zeit µ"), .interruption, .bytes (Text.utf8 "s\n1 2\n1 3\n")] ∧
      (parseThroughput "log" [.bytes (Text.utf8 " \t\n1 2\n1 3\n")]).1 ≠ .error (.notRead "log" 1 .notText) := by
  have hblank : Text.ofUtf8? (Text.utf8 " \t") = some " \t" := Text.ofUtf8?_utf8 _
  have hwords : Text.ofUtf8? (Text.utf8 "Zeit µs") = some "Zeit µs" := Text.ofUtf8?_utf8 _
  have hnone : Text.newline ∉ Text.utf8 " \t" := by decide +kernel
  have hnone' : Text.newline ∉ Text.utf8 "Zeit µs" := by decide +kernel
  have hcontent : Script.content [.bytes (Text.utf8 " \t\n1 2\n1 3\n")] =
      .ok (Text.utf8 " \t" ++ Text.newline :: Text.utf8 "1 2\n1 3\n") := by decide +kernel
  have hcontent' : Script.content [.bytes (Text.utf8 "Zeit µ"), .interruption, .bytes (Text.utf8 "s\n1 2\n1 3\n")] =
      .ok (Text.utf8 "Zeit µs" ++ Text.newline :: Text.utf8 "1 2\n1 3\n") := by decide +kernel
  obtain ⟨hsame, -, -, herror⟩ := log_depends_on_header_as_text "log" hnone hnone' hcontent hcontent'
  have hboth : Text.ofUtf8? (Text.utf8 " \t") = none ↔ Text.ofUtf8? (Text.utf8 "Zeit µs") = none := by
    simp [hblank, hwords]
  obtain ⟨-, -, hthroughput⟩ := hsame hboth
  exact ⟨hthroughput, mt herror.mp (by simp [hblank])⟩

/-- A header that is no text does change a log: with it there is an error, and with another header a series. -/
theorem header_that_is_no_text_changes_log :
    Text.newline ∉ [(255 : UInt8)] ∧ Text.newline ∉ Text.utf8 "h" ∧
      parseBuffer "log" [.bytes ([255] ++ Text.newline :: Text.utf8 "1 2\n")] = .error (.notRead "log" 1 .notText) ∧
      parseBuffer "log" [.bytes (Text.utf8 "h" ++ Text.newline :: Text.utf8 "1 2\n")] = .ok ⟨[(1, 2)]⟩ := by
  decide +kernel

end StreamCharts
