import Mathlib.Data.List.Forall2
import StreamCharts.Proofs.Log.Scan
import StreamCharts.Proofs.Text.Fields

/-!
# The verdict on a log

What it takes for a log to be read, said of its lines. The header need only be text. A line of data `Holds` a point if it is text
with as many fields as the log has columns and the first two denote the coordinates; otherwise `LineError` says which error it
gives. A log is read if all its lines are in order, and the first line that is not decides the error, whatever stands behind it
(`logs_decided_by_first_error`).
-/

namespace StreamCharts

/-- The line that an error names. -/
def LogError.line? : LogError → Option Nat
  | .notOpened .. => none
  | .notRead _ line _ => some line
  | .fieldCount _ line _ _ => some line
  | .invalidNumber _ line _ _ => some line

namespace Columns

variable {α β : Type} (c : Columns α β)

/-- A line of data holds a point: it is text with as many fields as the log has columns, and the first two denote the
coordinates. -/
def Holds (line : List UInt8) (x : α) (y : β) : Prop :=
  ∃ text first second others, Text.ofUtf8? line = some text ∧ Text.Fields text (first :: second :: others) ∧
    others.length + 2 = c.fieldCount ∧ c.readFirst? first = some x ∧ c.readSecond? second = some y

/-- Line `n` is in order: the header need only be text, and every later line holds a point. -/
def LineOk (n : Nat) (line : List UInt8) : Prop :=
  if n = 1 then ∃ text, Text.ofUtf8? line = some text else ∃ x y, c.Holds line x y

/-- All lines of a log are in order. -/
def LinesOk (ls : List (List UInt8)) : Prop :=
  ∀ i line, ls[i]? = some line → c.LineOk (i + 1) line

/-- The error that line `n` gives: the header can only fail to be text; in a line of data the number of fields is looked at
before the fields, and the first field before the second. -/
inductive LineError (file : String) (n : Nat) (line : List UInt8) : LogError → Prop where
  | notText (h : Text.ofUtf8? line = none) : LineError file n line (.notRead file n .notText)
  | fieldCount {text : String} {fs : List String} (hn : n ≠ 1) (h : Text.ofUtf8? line = some text)
      (hf : Text.Fields text fs) (hc : fs.length ≠ c.fieldCount) :
      LineError file n line (.fieldCount file n c.fieldCount fs.length)
  | first {text first second : String} {others : List String} (hn : n ≠ 1) (h : Text.ofUtf8? line = some text)
      (hf : Text.Fields text (first :: second :: others)) (hc : others.length + 2 = c.fieldCount)
      (hx : c.readFirst? first = none) : LineError file n line (.invalidNumber file n c.first first)
  | second {text first second : String} {others : List String} {x : α} (hn : n ≠ 1) (h : Text.ofUtf8? line = some text)
      (hf : Text.Fields text (first :: second :: others)) (hc : others.length + 2 = c.fieldCount)
      (hx : c.readFirst? first = some x) (hy : c.readSecond? second = none) :
      LineError file n line (.invalidNumber file n c.second second)

/-- A result is decided by the lines of a log: it is a success if all lines are in order, and otherwise the error of the first
line that is not, behind which no line is looked at. -/
structure Decides {γ : Type} (file : String) (ls : List (List UInt8)) (result : Except LogError γ) : Prop where
  accepted : (∃ series, result = .ok series) ↔ c.LinesOk ls
  refused : ∀ e, result = .error e ↔
    ∃ before line, before ++ [line] <+: ls ∧ c.LinesOk before ∧ c.LineError file (before.length + 1) line e

/-! ## One line -/

/-- An error of a line names the line. -/
theorem LineError.line?_eq {c : Columns α β} {file : String} {n : Nat} {line : List UInt8} {e : LogError}
    (h : c.LineError file n line e) : e.line? = some n := by
  cases h with
  | notText => rfl
  | fieldCount => rfl
  | first => rfl
  | second => rfl

/-- What a line of data gives: its point, or its error. -/
def judge (file : String) (n : Nat) (line : List UInt8) : Except LogError (Sample α β) :=
  match Text.ofUtf8? line with
  | none => .error (.notRead file n .notText)
  | some text => Row.ofLine file n c.fieldCount text >>= c.sample

/-- A scan takes lines of data one by one. -/
theorem scan_ofLine (file : String) (lines : Nat) (line : List UInt8) (rest : List Reading) :
    c.scan file lines (Reading.ofLine line :: rest) =
      match c.judge file (lines + 1) line with
      | .error e => ⟨[], some e⟩
      | .ok sample => (c.scan file (lines + 1) rest).cons sample := by
  simp only [scan, Row.ofReading, Reading.ofLine, Outcome.ofBytes, judge]
  cases Text.ofUtf8? line with
  | none => rfl
  | some text =>
    dsimp only
    cases Row.ofLine file (lines + 1) c.fieldCount text with
    | error e => rfl
    | ok row => rfl

/-- The row of a text with the fields that it should have. -/
theorem ofLine_of_fields {file text : String} {n : Nat} {fs : List String} (hf : Text.Fields text fs)
    (hc : fs.length = c.fieldCount) : Row.ofLine file n c.fieldCount text = .ok ⟨file, n, fs⟩ := by
  rw [Row.ofLine, (Text.fields_iff text fs).mp hf]
  simp [hc]

/-- A line that holds a point gives it. -/
theorem judge_of_holds {line : List UInt8} {x : α} {y : β} (h : c.Holds line x y) (file : String) (n : Nat) :
    c.judge file n line = .ok ⟨n, x, y⟩ := by
  obtain ⟨text, first, second, others, htext, hf, hc, hx, hy⟩ := h
  simp only [judge, htext, c.ofLine_of_fields hf hc]
  simp [bind, Except.bind, sample, Row.value, hx, hy, pure, Except.pure]

/-- A line of data with an error gives it. -/
theorem judge_of_lineError {file : String} {n : Nat} {line : List UInt8} {e : LogError}
    (h : c.LineError file n line e) : c.judge file n line = .error e := by
  cases h with
  | notText h => simp [judge, h]
  | fieldCount _ h hf hc =>
    rw [judge, h]
    simp [Row.ofLine, (Text.fields_iff _ _).mp hf, hc, bind, Except.bind]
  | first _ h hf hc hx =>
    simp only [judge, h, c.ofLine_of_fields hf hc]
    simp [bind, Except.bind, sample, Row.value, hx]
  | second _ h hf hc hx hy =>
    simp only [judge, h, c.ofLine_of_fields hf hc]
    simp [bind, Except.bind, sample, Row.value, hx, hy]

/-- A line is in order, or it gives an error. -/
theorem lineOk_or_lineError (hcount : 2 ≤ c.fieldCount) (file : String) (n : Nat) (line : List UInt8) :
    c.LineOk n line ∨ ∃ e, c.LineError file n line e := by
  cases htext : Text.ofUtf8? line with
  | none => exact Or.inr ⟨_, LineError.notText htext⟩
  | some text =>
    by_cases hn : n = 1
    · exact Or.inl (by simp [LineOk, hn, htext])
    · have hf := (Text.fields_iff text _).mpr rfl
      by_cases hc : (Text.fields text).length = c.fieldCount
      · obtain ⟨first, second, others, hfields⟩ : ∃ first second others, Text.fields text = first :: second :: others := by
          match h : Text.fields text with
          | [] => simp [h] at hc; omega
          | [_] => simp [h] at hc; omega
          | first :: second :: others => exact ⟨first, second, others, rfl⟩
        rw [hfields] at hf hc
        cases hx : c.readFirst? first with
        | none => exact Or.inr ⟨_, LineError.first hn htext hf hc hx⟩
        | some x =>
          cases hy : c.readSecond? second with
          | none => exact Or.inr ⟨_, LineError.second hn htext hf hc hx hy⟩
          | some y =>
            refine Or.inl ?_
            rw [LineOk, if_neg hn]
            exact ⟨x, y, text, first, second, others, htext, hf, hc, hx, hy⟩
      · exact Or.inr ⟨_, LineError.fieldCount hn htext hf hc⟩

/-- A line holds the point that is judged to be its own, and no other. -/
theorem holds_iff_judge (hcount : 2 ≤ c.fieldCount) (file : String) {n : Nat} (hn : n ≠ 1) (line : List UInt8) (x : α) (y : β) :
    c.Holds line x y ↔ c.judge file n line = .ok ⟨n, x, y⟩ := by
  constructor
  · intro h
    exact c.judge_of_holds h file n
  · intro h
    rcases c.lineOk_or_lineError hcount file n line with hok | ⟨e, he⟩
    · rw [LineOk, if_neg hn] at hok
      obtain ⟨x', y', hxy⟩ := hok
      rw [c.judge_of_holds hxy file n] at h
      injection h with h
      injection h with _ hx hy
      exact hx ▸ hy ▸ hxy
    · rw [c.judge_of_lineError he] at h
      cases h

/-! ## Lines of data -/

/-- The points of rows with the lines they stand on, the first of which is line `n`. -/
def samplesFrom (n : Nat) (rows : List (α × β)) : List (Sample α β) :=
  (rows.zipIdx n).map fun (row, line) => ⟨line, row.1, row.2⟩

/-- A scan of lines that hold points finds these points. -/
theorem scan_of_holds (file : String) {ls : List (List UInt8)} {rows : List (α × β)}
    (h : List.Forall₂ (fun line row => c.Holds line row.1 row.2) ls rows) (lines : Nat) :
    c.scan file lines (ls.map Reading.ofLine) = ⟨samplesFrom (lines + 1) rows, none⟩ := by
  induction h generalizing lines with
  | nil => rfl
  | @cons line row ls rows hrow _ ih =>
    rw [List.map_cons, c.scan_ofLine, c.judge_of_holds hrow]
    simp only [ih (lines + 1), Scan.cons, samplesFrom, List.zipIdx_cons, List.map_cons]

/-- A scan stops at the first line with an error. -/
theorem scan_of_lineError (file : String) {ls : List (List UInt8)} {rows : List (α × β)} {line : List UInt8} {e : LogError}
    (h : List.Forall₂ (fun line row => c.Holds line row.1 row.2) ls rows) (lines : Nat)
    (he : c.LineError file (lines + ls.length + 1) line e) (rest : List (List UInt8)) :
    c.scan file lines ((ls ++ line :: rest).map Reading.ofLine) = ⟨samplesFrom (lines + 1) rows, some e⟩ := by
  have herror := c.scan_ofLine file (lines + ls.length) line (rest.map Reading.ofLine)
  rw [c.judge_of_lineError he] at herror
  rw [List.map_append, List.map_cons, c.scan_append file lines _ _ (Reading.ofLine_ne_finished ls), List.length_map,
    herror, c.scan_of_holds file h]
  simp [Scan.andThen]

/-! ## Whole logs -/

/-- The header and the data of a log in which all lines are in order. -/
theorem linesOk_cons_iff (header : List UInt8) (data : List (List UInt8)) :
    c.LinesOk (header :: data) ↔ (∃ text, Text.ofUtf8? header = some text) ∧
      ∃ rows, List.Forall₂ (fun line (row : α × β) => c.Holds line row.1 row.2) data rows := by
  constructor
  · intro h
    refine ⟨by simpa [LineOk] using h 0 header rfl, ?_⟩
    have hdata : ∀ line ∈ data, ∃ row : α × β, c.Holds line row.1 row.2 := by
      intro line hline
      obtain ⟨i, hi⟩ := List.mem_iff_getElem?.mp hline
      have hok := h (i + 1) line (by simpa using hi)
      rw [LineOk, if_neg (by omega)] at hok
      obtain ⟨x, y, hxy⟩ := hok
      exact ⟨(x, y), hxy⟩
    clear h
    induction data with
    | nil => exact ⟨[], List.Forall₂.nil⟩
    | cons line data ih =>
      obtain ⟨⟨row, hrow⟩, hdata⟩ := List.forall_mem_cons.mp hdata
      obtain ⟨rows, hrows⟩ := ih hdata
      exact ⟨row :: rows, List.Forall₂.cons hrow hrows⟩
  · rintro ⟨hheader, rows, hrows⟩ i line hline
    cases i with
    | zero =>
      obtain rfl : header = line := by simpa using hline
      simpa [LineOk] using hheader
    | succ i =>
      rw [List.getElem?_cons_succ] at hline
      rw [LineOk, if_neg (by omega)]
      have hi := (List.getElem?_eq_some_iff.mp hline).1
      have hrow := hrows.get hi (by rw [← hrows.length_eq]; exact hi)
      simp only [List.get_eq_getElem, (List.getElem?_eq_some_iff.mp hline).2] at hrow
      exact ⟨_, _, hrow⟩

/-- A log whose header is text and whose data hold points gives these points. -/
theorem scanLines_of_holds (file : String) {ls : List (List UInt8)} {rows : List (α × β)}
    (hheader : ∀ header ∈ ls.head?, ∃ text, Text.ofUtf8? header = some text)
    (hrows : List.Forall₂ (fun line row => c.Holds line row.1 row.2) ls.tail rows) :
    c.scanLines file ls = ⟨samplesFrom 2 rows, none⟩ := by
  cases ls with
  | nil =>
    cases hrows
    rfl
  | cons header data =>
    obtain ⟨text, htext⟩ := hheader header rfl
    simp only [scanLines, scanReadings, List.map_cons, Reading.ofLine, Outcome.ofBytes, htext]
    exact c.scan_of_holds file hrows 1

/-- A log in which all lines are in order gives the points of its data. -/
theorem scanLines_of_linesOk (file : String) {ls : List (List UInt8)} (h : c.LinesOk ls) :
    ∃ rows, List.Forall₂ (fun line (row : α × β) => c.Holds line row.1 row.2) ls.tail rows ∧
      c.scanLines file ls = ⟨samplesFrom 2 rows, none⟩ := by
  cases ls with
  | nil => exact ⟨[], List.Forall₂.nil, rfl⟩
  | cons header data =>
    obtain ⟨hheader, rows, hrows⟩ := (c.linesOk_cons_iff header data).mp h
    refine ⟨rows, hrows, c.scanLines_of_holds file ?_ hrows⟩
    intro header' hmem
    obtain rfl : header = header' := by simpa using hmem
    exact hheader

/-- The first line with an error stops the scan of a log. -/
theorem scanLines_of_lineError (file : String) {before ls : List (List UInt8)} {line : List UInt8} {e : LogError}
    (hbegins : before ++ [line] <+: ls) (hok : c.LinesOk before) (he : c.LineError file (before.length + 1) line e) :
    (c.scanLines file ls).error? = some e := by
  obtain ⟨rest, rfl⟩ := hbegins
  cases before with
  | nil =>
    cases he with
    | notText h => simp [scanLines, scanReadings, Reading.ofLine, Outcome.ofBytes, h]
    | fieldCount hn => simp at hn
    | first hn => simp at hn
    | second hn => simp at hn
  | cons header data =>
    obtain ⟨⟨text, htext⟩, rows, hrows⟩ := (c.linesOk_cons_iff header data).mp hok
    rw [List.length_cons, Nat.add_comm data.length] at he
    have hscan := c.scan_of_lineError file hrows 1 he rest
    rw [List.append_assoc, List.singleton_append, List.cons_append]
    simp only [scanLines, scanReadings, List.map_cons, Reading.ofLine, Outcome.ofBytes, htext]
    exact congrArg Scan.error? hscan

/-- All lines of a log are in order, or there is a first one with an error. -/
theorem linesOk_or_lineError (hcount : 2 ≤ c.fieldCount) (file : String) (ls : List (List UInt8)) :
    c.LinesOk ls ∨ ∃ before line e, before ++ [line] <+: ls ∧ c.LinesOk before ∧
      c.LineError file (before.length + 1) line e := by
  induction ls using List.reverseRecOn with
  | nil => exact Or.inl (by simp [LinesOk])
  | append_singleton ls last ih =>
    rcases ih with hok | ⟨before, line, e, hbegins, hok, he⟩
    · rcases c.lineOk_or_lineError hcount file (ls.length + 1) last with hlast | ⟨e, he⟩
      · refine Or.inl fun i line hline => ?_
        rcases Nat.lt_or_ge i ls.length with hi | hi
        · rw [List.getElem?_append_left hi] at hline
          exact hok i line hline
        · rw [List.getElem?_append_right hi, List.getElem?_singleton] at hline
          split at hline
          · obtain rfl := Option.some.inj hline
            rwa [show i = ls.length by omega]
          · exact absurd hline (by simp)
      · exact Or.inr ⟨ls, last, e, List.prefix_rfl, hok, he⟩
    · exact Or.inr ⟨before, line, e, hbegins.trans (List.prefix_append _ _), hok, he⟩

/-- What is made of the scan of a log is decided by its lines. -/
theorem decides_scanLines {γ : Type} (hcount : 2 ≤ c.fieldCount) (file : String) (ls : List (List UInt8))
    (f : List (Sample α β) → γ) : c.Decides file ls ((c.scanLines file ls).result.map f) := by
  have hok : c.LinesOk ls → ∃ series, (c.scanLines file ls).result.map f = .ok series := by
    intro h
    obtain ⟨rows, -, hscan⟩ := c.scanLines_of_linesOk file h
    exact ⟨f (samplesFrom 2 rows), by rw [hscan]; rfl⟩
  have herror : ∀ before line e, before ++ [line] <+: ls → c.LinesOk before →
      c.LineError file (before.length + 1) line e → (c.scanLines file ls).result.map f = .error e := by
    intro before line e hbegins hbefore he
    rw [Scan.result, c.scanLines_of_lineError file hbegins hbefore he]
    rfl
  rcases c.linesOk_or_lineError hcount file ls with h | ⟨before, line, e, hbegins, hbefore, he⟩
  · obtain ⟨series, hseries⟩ := hok h
    refine ⟨⟨fun _ => h, hok⟩, fun e => ⟨fun hresult => ?_, fun ⟨before, line, hbegins, hbefore, he⟩ => ?_⟩⟩
    · rw [hseries] at hresult
      cases hresult
    · exact herror before line e hbegins hbefore he
  · have hresult := herror before line e hbegins hbefore he
    refine ⟨⟨fun ⟨series, hseries⟩ => ?_, hok⟩, fun e' => ⟨fun hresult' => ?_, fun ⟨before, line, hp, hb, he'⟩ => ?_⟩⟩
    · rw [hresult] at hseries
      cases hseries
    · rw [hresult] at hresult'
      obtain rfl : e = e' := by injection hresult'
      exact ⟨before, line, hbegins, hbefore, he⟩
    · exact herror before line e' hp hb he'

/-- Behind the line that an error names nothing matters: a log that begins with the same lines up to it has the same error. -/
theorem Decides.error_of_take_eq {c : Columns α β} {γ : Type} {file : String} {ls ls' : List (List UInt8)}
    {result result' : Except LogError γ} (h : c.Decides file ls result) (h' : c.Decides file ls' result') {n : Nat} {e : LogError}
    (htake : ls.take n = ls'.take n) (hn : e.line? = some n) (he : result = .error e) : result' = .error e := by
  obtain ⟨before, line, hbegins, hok, hline⟩ := (h.refused e).mp he
  obtain rfl : before.length + 1 = n := Option.some.inj (hline.line?_eq.symm.trans hn)
  have hbefore : before ++ [line] = ls.take (before.length + 1) := by
    simpa using List.prefix_iff_eq_take.mp hbegins
  refine (h'.refused e).mpr ⟨before, line, ?_, hok, hline⟩
  rw [hbefore, htake]
  exact List.take_prefix _ _

/-- The points of samples are the rows that they were made of. -/
theorem ofSamples_samplesFrom (n : Nat) (rows : List (α × β)) : Series.ofSamples (samplesFrom n rows) = ⟨rows⟩ := by
  simp only [Series.ofSamples, samplesFrom, List.map_map, Function.comp_def]
  congr 1
  exact List.zipIdx_map_fst n rows

/-- The series of a log that is read holds one point for each line of data, in their order. -/
theorem forall₂_holds_of_ok (hcount : 2 ≤ c.fieldCount) {file : String} {ls : List (List UInt8)} {series : Series α β}
    (h : (c.scanLines file ls).result.map Series.ofSamples = .ok series) :
    List.Forall₂ (fun line (point : α × β) => c.Holds line point.1 point.2) ls.tail series.pairs := by
  have hok := (c.decides_scanLines hcount file ls Series.ofSamples).accepted.mp ⟨series, h⟩
  obtain ⟨rows, hrows, hscan⟩ := c.scanLines_of_linesOk file hok
  rw [hscan] at h
  simp only [Scan.result, Except.map, ofSamples_samplesFrom, Except.ok.injEq] at h
  subst h
  exact hrows

end Columns

section Verdicts

variable {file : String} {script : Script} {bytes : List UInt8}

/-- An adaptation log with a content is read from the lines of its content. -/
theorem parseAdaptation_of_content (h : script.content = .ok bytes) : parseAdaptation file script =
    (adaptationColumns.scanLines file (Text.lines bytes)).result.map Series.ofSamples := by
  rw [parseAdaptation, adaptationColumns.scanLog_of_content file h]

/-- A buffer log with a content is read from the lines of its content. -/
theorem parseBuffer_of_content (h : script.content = .ok bytes) : parseBuffer file script =
    (bufferColumns.scanLines file (Text.lines bytes)).result.map Series.ofSamples := by
  rw [parseBuffer, bufferColumns.scanLog_of_content file h]

/-- A throughput log with a content is read from the lines of its content. -/
theorem parseThroughput_of_content (h : script.content = .ok bytes) : (parseThroughput file script).1 =
    (throughputColumns.scanLines file (Text.lines bytes)).result.map fun _ =>
      Series.ofSamples (splitRepeated [] (throughputColumns.scanLines file (Text.lines bytes)).samples).1 := by
  rw [parseThroughput, throughputColumns.scanLog_of_content file h]

/-- The lines of a content decide an adaptation log. -/
theorem decides_parseAdaptation (h : script.content = .ok bytes) :
    adaptationColumns.Decides file (Text.lines bytes) (parseAdaptation file script) := by
  rw [parseAdaptation_of_content h]
  exact adaptationColumns.decides_scanLines (by decide) file _ _

/-- The lines of a content decide a buffer log. -/
theorem decides_parseBuffer (h : script.content = .ok bytes) :
    bufferColumns.Decides file (Text.lines bytes) (parseBuffer file script) := by
  rw [parseBuffer_of_content h]
  exact bufferColumns.decides_scanLines (by decide) file _ _

/-- The lines of a content decide a throughput log. -/
theorem decides_parseThroughput (h : script.content = .ok bytes) :
    throughputColumns.Decides file (Text.lines bytes) (parseThroughput file script).1 := by
  rw [parseThroughput_of_content h]
  exact throughputColumns.decides_scanLines (by decide) file _ _

end Verdicts

/-- A log without read failures is decided by its lines: it is read exactly if the header is text and every later line holds a
point, and otherwise the error is that of the first line that is not in order, whatever stands behind it. An adaptation log and
a buffer log give one point for each line of data, in their order. -/
theorem logs_decided_by_first_error (file : String) (script : Script) (bytes : List UInt8) (h : script.content = .ok bytes) :
    (adaptationColumns.Decides file (Text.lines bytes) (parseAdaptation file script) ∧
      bufferColumns.Decides file (Text.lines bytes) (parseBuffer file script) ∧
      throughputColumns.Decides file (Text.lines bytes) (parseThroughput file script).1) ∧
    (∀ script' bytes' e n, script'.content = .ok bytes' → (Text.lines bytes).take n = (Text.lines bytes').take n →
      e.line? = some n →
        (parseAdaptation file script = .error e → parseAdaptation file script' = .error e) ∧
        (parseBuffer file script = .error e → parseBuffer file script' = .error e) ∧
        ((parseThroughput file script).1 = .error e → (parseThroughput file script').1 = .error e)) ∧
    (∀ series, parseAdaptation file script = .ok series →
      List.Forall₂ (fun line point => adaptationColumns.Holds line point.1 point.2) (Text.lines bytes).tail series.pairs) ∧
    (∀ series, parseBuffer file script = .ok series →
      List.Forall₂ (fun line point => bufferColumns.Holds line point.1 point.2) (Text.lines bytes).tail series.pairs) := by
  refine ⟨⟨decides_parseAdaptation h, decides_parseBuffer h, decides_parseThroughput h⟩, ?_, ?_, ?_⟩
  · intro script' bytes' e n h' htake hn
    refine ⟨?_, ?_, ?_⟩
    · exact (decides_parseAdaptation h).error_of_take_eq (decides_parseAdaptation h') htake hn
    · exact (decides_parseBuffer h).error_of_take_eq (decides_parseBuffer h') htake hn
    · exact (decides_parseThroughput h).error_of_take_eq (decides_parseThroughput h') htake hn
  · intro series hseries
    rw [parseAdaptation_of_content h] at hseries
    exact adaptationColumns.forall₂_holds_of_ok (by decide) hseries
  · intro series hseries
    rw [parseBuffer_of_content h] at hseries
    exact bufferColumns.forall₂_holds_of_ok (by decide) hseries

/-- A blank line is the first error, and the bytes behind it make no difference, be they text or not. -/
theorem blank_line_error_hides_later_lines :
    (parseThroughput "log" [.bytes (Text.utf8 "h\n0 1\n\n"), .bytes [255]]).1 = .error (.fieldCount "log" 3 2 0) ∧
      (parseThroughput "log" [.bytes (Text.utf8 "h\n0 1\n\nx")]).1 = .error (.fieldCount "log" 3 2 0) ∧
      ∃ before line, before ++ [line] <+: Text.lines (Text.utf8 "h\n0 1\n\n" ++ [255]) ∧ throughputColumns.LinesOk before ∧
        throughputColumns.LineError "log" (before.length + 1) line (.fieldCount "log" 3 2 0) := by
  obtain ⟨⟨-, -, hdecides⟩, hlater, -⟩ := logs_decided_by_first_error "log"
    [.bytes (Text.utf8 "h\n0 1\n\n"), .bytes [255]] (Text.utf8 "h\n0 1\n\n" ++ [255]) rfl
  have herror : (parseThroughput "log" [.bytes (Text.utf8 "h\n0 1\n\n"), .bytes [255]]).1 =
      .error (.fieldCount "log" 3 2 0) := by decide +kernel
  obtain ⟨-, -, hsame⟩ := hlater [.bytes (Text.utf8 "h\n0 1\n\nx")] (Text.utf8 "h\n0 1\n\nx") (.fieldCount "log" 3 2 0) 3
    rfl (by decide +kernel) rfl
  exact ⟨herror, hsame herror, (hdecides.refused _).mp herror⟩

end StreamCharts
