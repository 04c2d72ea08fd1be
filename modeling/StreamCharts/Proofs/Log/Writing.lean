import StreamCharts.Proofs.Log.Verdict
import StreamCharts.Proofs.Text.Layout
import StreamCharts.Proofs.Text.Numerals

/-!
# Adaptation logs as they are written

An `AdaptationRow` is a row of an adaptation log as it is written: the spellings of its two numbers, three fields that nobody reads,
and the gaps between them are the writer's choice. Whatever was chosen, the numbers are read back, in their order. A number that
64 bits do not hold is refused where it stands, as it is spelled. Both are `adaptation_log_read_as_written`.
-/

namespace StreamCharts

open Text (WrittenRow newline utf8)

/-- A row of an adaptation log as it is written. -/
structure AdaptationRow extends WrittenRow where
  segment : Int64
  representation : Int64
  first : String
  second : String
  others : List String
  fields_eq : toWrittenRow.fields = first :: second :: others
  length_others : others.length = 3
  spells_first : Numeral.Spells segment.toInt first
  spells_second : Numeral.Spells representation.toInt second

/-- The point of a row. -/
def AdaptationRow.point (row : AdaptationRow) : Int64 × Int64 :=
  (row.segment, row.representation)

/-- The bytes of an adaptation log: a header and rows, each line with its newline. -/
def writtenLog (header : String) (rows : List AdaptationRow) : List UInt8 :=
  Text.written (header :: rows.map fun row => row.text)

/-! ## One row -/

/-- The line of a row, with its newline or without it. -/
def AdaptationRow.IsLine (row : AdaptationRow) (line : List UInt8) : Prop :=
  line = utf8 row.text ∨ line = utf8 row.text ++ [newline]

/-- The line of a row holds its point. -/
theorem AdaptationRow.holds (row : AdaptationRow) {line : List UInt8} (h : row.IsLine line) :
    adaptationColumns.Holds line row.point.1 row.point.2 := by
  obtain ⟨text, htext, hfields⟩ := row.exists_fields h
  rw [row.fields_eq] at hfields
  refine ⟨text, row.first, row.second, row.others, htext, hfields, ?_, ?_, ?_⟩
  · rw [row.length_others]
    rfl
  · exact row.spells_first.int64?_of_toInt
  · exact row.spells_second.int64?_of_toInt

/-- A first number that does not fit is the error of its line. -/
theorem lineError_of_first {row : WrittenRow} {line : List UInt8} {first second : String} {others : List String} {value : Int}
    (h : line = utf8 row.text ∨ line = utf8 row.text ++ [newline]) (hfields : row.fields = first :: second :: others)
    (hothers : others.length = 3) (hvalue : value < -2 ^ 63 ∨ 2 ^ 63 - 1 < value) (hfirst : Numeral.Spells value first)
    (file : String) {n : Nat} (hn : n ≠ 1) :
    adaptationColumns.LineError file n line (.invalidNumber file n "segment index" first) := by
  obtain ⟨text, htext, hf⟩ := row.exists_fields h
  rw [hfields] at hf
  exact .first hn htext hf (by rw [hothers]; rfl) (hfirst.int64?_eq_none hvalue)

/-- A second number that does not fit is the error of its line if the first one fits. -/
theorem lineError_of_second {row : WrittenRow} {line : List UInt8} {first second : String} {others : List String} {value : Int}
    {x : Int64} (h : line = utf8 row.text ∨ line = utf8 row.text ++ [newline])
    (hfields : row.fields = first :: second :: others) (hothers : others.length = 3)
    (hvalue : value < -2 ^ 63 ∨ 2 ^ 63 - 1 < value) (hfirst : Numeral.Spells x.toInt first)
    (hsecond : Numeral.Spells value second) (file : String) {n : Nat} (hn : n ≠ 1) :
    adaptationColumns.LineError file n line (.invalidNumber file n "representation index" second) := by
  obtain ⟨text, htext, hf⟩ := row.exists_fields h
  rw [hfields] at hf
  exact .second hn htext hf (by rw [hothers]; rfl) hfirst.int64?_of_toInt (hsecond.int64?_eq_none hvalue)

/-! ## All rows -/

/-- The lines of a log in front of other bytes: the header with its newline, a line for each row, and the lines of those bytes. -/
theorem lines_writtenLog_append {header : String} (hheader : '\n' ∉ header.toList) (rows : List AdaptationRow)
    (more : List UInt8) : Text.lines (writtenLog header rows ++ more) =
      (utf8 header ++ [newline]) :: (rows.map fun row => utf8 row.text ++ [newline]) ++ Text.lines more := by
  rw [writtenLog, Text.lines_written_append, List.map_cons, List.map_map]
  · rfl
  · refine List.forall_mem_cons.mpr ⟨hheader, fun text htext => ?_⟩
    obtain ⟨row, -, rfl⟩ := List.mem_map.mp htext
    exact row.newline_notMem_text

/-- Lines of rows hold their points. -/
theorem forall₂_holds_of_isLine {rows : List AdaptationRow} {ls : List (List UInt8)}
    (h : List.Forall₂ (fun line row => AdaptationRow.IsLine row line) ls rows) :
    List.Forall₂ (fun line point => adaptationColumns.Holds line point.1 point.2) ls (rows.map AdaptationRow.point) := by
  rw [List.forall₂_map_right_iff]
  exact h.imp fun _ row hline => row.holds hline

/-- The lines of a log, with the newline behind the last one or without it: a header that is text, and the lines of its rows. -/
theorem lines_writtenLog {header : String} (hheader : '\n' ∉ header.toList) (rows : List AdaptationRow) {bytes : List UInt8}
    (h : bytes = writtenLog header rows ∨ bytes ++ [newline] = writtenLog header rows) :
    (∀ line ∈ (Text.lines bytes).head?, ∃ text, Text.ofUtf8? line = some text) ∧
      List.Forall₂ (fun line row => AdaptationRow.IsLine row line) (Text.lines bytes).tail rows := by
  have hended : ∃ text, Text.ofUtf8? (utf8 header ++ [newline]) = some text := by
    rw [← Option.ne_none_iff_exists', Ne, Text.ofUtf8?_append_newline_eq_none_iff, Text.ofUtf8?_utf8]
    simp
  rcases h with rfl | h
  · have hlines := lines_writtenLog_append hheader rows []
    rw [List.append_nil, Text.lines, List.append_nil] at hlines
    rw [hlines]
    refine ⟨by simpa using hended, ?_⟩
    rw [List.tail_cons, List.forall₂_map_left_iff, List.forall₂_same]
    exact fun row _ => Or.inr rfl
  · -- the last line, the header or a row, is open
    rcases List.eq_nil_or_concat rows with rfl | ⟨before, last, rfl⟩
    · obtain rfl : bytes = utf8 header := by
        rw [writtenLog, Text.written_eq_flatten] at h
        simpa using h
      by_cases hempty : utf8 header = []
      · simp [hempty, Text.lines]
      · rw [Text.lines_open hempty (Text.newline_notMem_utf8 hheader)]
        simp [Text.ofUtf8?_utf8]
    · rw [List.concat_eq_append] at h ⊢
      obtain rfl : bytes = writtenLog header before ++ utf8 last.text := by
        rw [writtenLog, Text.written_eq_flatten] at h
        rw [writtenLog, Text.written_eq_flatten]
        exact List.append_cancel_right (by simpa using h)
      have hne : utf8 last.text ≠ [] := last.utf8_text_ne (by simp [last.fields_eq])
      rw [lines_writtenLog_append hheader, Text.lines_open hne (Text.newline_notMem_utf8 last.newline_notMem_text)]
      refine ⟨by simpa using hended, ?_⟩
      rw [List.cons_append, List.tail_cons]
      refine List.rel_append ?_ (.cons (Or.inl rfl) .nil)
      rw [List.forall₂_map_left_iff, List.forall₂_same]
      exact fun row _ => Or.inr rfl

/-- The first line of a row in front of bytes that do not go on with it. -/
theorem exists_lines_row_append (row : WrittenRow) {behind : List UInt8} (h : behind = [] ∨ behind.head? = some newline)
    (hfields : row.fields ≠ []) : ∃ line rest, Text.lines (utf8 row.text ++ behind) = line :: rest ∧
      (line = utf8 row.text ∨ line = utf8 row.text ++ [newline]) := by
  have hopen := Text.newline_notMem_utf8 row.newline_notMem_text
  rcases h with rfl | h
  · exact ⟨_, [], by rw [List.append_nil, Text.lines_open (row.utf8_text_ne hfields) hopen], Or.inl rfl⟩
  · obtain ⟨rest, rfl⟩ := List.head?_eq_some_iff.mp h
    refine ⟨_, Text.lines rest, ?_, Or.inr rfl⟩
    rw [← Text.lines_ended_append ⟨_, hopen, rfl⟩, List.append_assoc, List.singleton_append]

/-- Behind a header and rows in order the error of the next line is the error of the log. -/
theorem parseAdaptation_of_lineError (file : String) {header : String} (hheader : '\n' ∉ header.toList)
    (rows : List AdaptationRow) {script : Script} {more : List UInt8} (h : script.content = .ok (writtenLog header rows ++ more))
    {line : List UInt8} {rest : List (List UInt8)} (hlines : Text.lines more = line :: rest) {e : LogError}
    (he : adaptationColumns.LineError file (rows.length + 2) line e) : parseAdaptation file script = .error e := by
  rw [(decides_parseAdaptation h).refused]
  obtain ⟨htext, hrows⟩ := lines_writtenLog hheader rows (Or.inl rfl)
  have hbefore := lines_writtenLog_append hheader rows []
  rw [List.append_nil, Text.lines, List.append_nil] at hbefore
  refine ⟨Text.lines (writtenLog header rows), line, ?_, ?_, ?_⟩
  · rw [lines_writtenLog_append hheader, hbefore, hlines]
    exact ⟨rest, by simp⟩
  · rw [hbefore] at htext hrows ⊢
    exact (adaptationColumns.linesOk_cons_iff _ _).mpr ⟨htext _ rfl, _, forall₂_holds_of_isLine hrows⟩
  · rw [hbefore]
    simpa using he

/-- Rows below a header are read back as they were written, with the newline behind the last line or without it. Behind such rows,
a row with a number that 64 bits do not hold is the error of the log, with the number as it is spelled: the first number, whatever
the second is, or the second behind a first that fits; what follows that row makes no difference. -/
theorem adaptation_log_read_as_written (file header : String) (hheader : '\n' ∉ header.toList) (rows : List AdaptationRow) :
    (∀ script bytes, script.content = .ok bytes →
      bytes = writtenLog header rows ∨ bytes ++ [newline] = writtenLog header rows →
        parseAdaptation file script = .ok ⟨rows.map AdaptationRow.point⟩) ∧
    ∀ script (row : WrittenRow) first second others behind value,
      script.content = .ok (writtenLog header rows ++ (utf8 row.text ++ behind)) →
      behind = [] ∨ behind.head? = some newline → row.fields = first :: second :: others → others.length = 3 →
      value < -2 ^ 63 ∨ 2 ^ 63 - 1 < value →
        (Numeral.Spells value first →
          parseAdaptation file script = .error (.invalidNumber file (rows.length + 2) "segment index" first)) ∧
        ∀ x : Int64, Numeral.Spells x.toInt first → Numeral.Spells value second →
          parseAdaptation file script = .error (.invalidNumber file (rows.length + 2) "representation index" second) := by
  refine ⟨?_, ?_⟩
  · intro script bytes h hbytes
    obtain ⟨htext, hrows⟩ := lines_writtenLog hheader rows hbytes
    rw [parseAdaptation_of_content h, adaptationColumns.scanLines_of_holds file htext (forall₂_holds_of_isLine hrows)]
    exact congrArg Except.ok (Columns.ofSamples_samplesFrom 2 _)
  · intro script row first second others behind value h hbehind hfields hothers hvalue
    obtain ⟨line, rest, hlines, hline⟩ := exists_lines_row_append row hbehind (by simp [hfields])
    refine ⟨fun hfirst => ?_, fun x hfirst hsecond => ?_⟩
    · exact parseAdaptation_of_lineError file hheader rows h hlines
        (lineError_of_first hline hfields hothers hvalue hfirst file (by omega))
    · exact parseAdaptation_of_lineError file hheader rows h hlines
        (lineError_of_second hline hfields hothers hvalue hfirst hsecond file (by omega))

/-- The smallest segment and representation 0, with leading zeros, a plus sign, a no-break space and a carriage return. -/
def smallestSegment : AdaptationRow where
  margin := "\t"
  cells := [("-009223372036854775808", " "), ("+0", "\u00A0"), ("1.5", "\t"), ("x", " "), ("y", "\r")]
  isGap_margin := by decide +kernel
  isField_fst := by decide +kernel
  isGap_snd := by decide +kernel
  snd_ne := by decide +kernel
  segment := Int64.minValue
  representation := 0
  first := "-009223372036854775808"
  second := "+0"
  others := ["1.5", "x", "y"]
  fields_eq := rfl
  length_others := rfl
  spells_first := .minus (by decide) 2
  spells_second := .plus (by decide) 0

/-- The largest segment, and as its representation the number behind it. -/
def representationTooLarge : WrittenRow where
  margin := ""
  cells := [("9223372036854775807", " "), ("9223372036854775808", " "), ("1", " "), ("2", " "), ("3", "")]
  isGap_margin := by decide +kernel
  isField_fst := by decide +kernel
  isGap_snd := by decide +kernel
  snd_ne := by decide +kernel

/-- The smallest segment is read back from a line that is not ended, and a number just too large is refused as it is spelled. -/
theorem smallest_segment_read_back :
    parseAdaptation "log" [.bytes (utf8 "é\n\t-009223372036854775808 +0\u00A01.5\tx y\r")] = .ok ⟨[(Int64.minValue, 0)]⟩ ∧
      parseAdaptation "log" [.bytes (utf8 "é\n\t-009223372036854775808 +0\u00A01.5\tx y\r\n"),
          .bytes (utf8 "9223372036854775807 9223372036854775808 1 2 3\n\n")] =
        .error (.invalidNumber "log" 3 "representation index" "9223372036854775808") := by
  obtain ⟨hread, hrefused⟩ := adaptation_log_read_as_written "log" "é" (by decide) [smallestSegment]
  refine ⟨hread _ (utf8 "é\n\t-009223372036854775808 +0\u00A01.5\tx y\r") (by decide +kernel) (Or.inr (by decide +kernel)), ?_⟩
  exact (hrefused _ representationTooLarge "9223372036854775807" "9223372036854775808" ["1", "2", "3"] (utf8 "\n\n") (2 ^ 63)
    (by decide +kernel) (by decide +kernel) rfl rfl (by decide)).2 Int64.maxValue (.plain (by decide) 0) (.plain (by decide) 0)

end StreamCharts
