import StreamCharts.Log.Row
import StreamCharts.Proofs.Input.Delivered
import StreamCharts.Proofs.Text.Fields
import StreamCharts.Proofs.Text.Lines

/-!
# Rows by successive calls

A loader is asked for one row after another, also behind errors and behind the end. Each call takes one reading
(`calls_of_passed`), the first call takes the header's before it (`calls_ofScript_of_line`). So in a text that arrives without
a failure every call judges its own line and nothing else (`calls_judge_own_line`).
-/

namespace StreamCharts

/-- How many readings are lines. -/
def textsRead (readings : List Reading) : Nat :=
  readings.countP fun reading => reading.outcome.isLine

/-- The reading that a request behind the last one gives. -/
def Reading.behindEnd : Reading := ⟨.finished, []⟩

namespace Loader

/-- What successive calls return; they go on after errors and behind the end. -/
def calls (loader : Loader) : List Nat → List (Except LogError (Option Row))
  | [] => []
  | count :: counts => (loader.next count).1 :: (loader.next count).2.calls counts

/-- Every call returns something. -/
theorem length_calls (loader : Loader) (counts : List Nat) : (loader.calls counts).length = counts.length := by
  induction counts generalizing loader with
  | nil => rfl
  | cons count counts ih => simp [calls, ih]

/-! ## One reading -/

/-- Advancing takes one reading away. -/
theorem pending_advance (loader : Loader) : loader.advance.pending = loader.pending.tail := by
  unfold advance
  split
  · next h => rw [h, List.tail_nil]
  · next h => rw [h, List.tail_cons]

/-- Advancing counts a reading that is a line. -/
theorem lines_advance (loader : Loader) : loader.advance.lines = loader.lines + textsRead (loader.pending.take 1) := by
  unfold advance
  split
  · next h => simp [h, textsRead]
  · next reading pending h =>
    cases ho : reading.outcome <;> simp [h, textsRead, Outcome.isLine, ho]

/-- Advancing stays in the file and on its side of the header. -/
theorem file_advance (loader : Loader) :
    loader.advance.file = loader.file ∧ loader.advance.headerPassed = loader.headerPassed := by
  unfold advance
  split
  · exact ⟨rfl, rfl⟩
  · exact ⟨rfl, rfl⟩

/-- The first of several readings and those behind it are all of them. -/
theorem textsRead_take_add (readings : List Reading) (i : Nat) :
    textsRead (readings.take 1) + textsRead (readings.tail.take i) = textsRead (readings.take (i + 1)) := by
  cases readings with
  | nil => simp [textsRead]
  | cons reading rest => simp [textsRead, List.countP_cons, Nat.add_comm]

/-! ## Calls behind the header -/

/-- Behind the header call `i` judges reading `i`, by the number of lines read before it. -/
theorem calls_of_passed {loader : Loader} (h : loader.headerPassed = true) (counts : List Nat) (i : Nat) :
    (loader.calls counts)[i]? = counts[i]?.map fun count =>
      Row.ofReading loader.file (loader.lines + textsRead (loader.pending.take i) + 1) count
        (loader.pending.getD i Reading.behindEnd) := by
  induction counts generalizing loader i with
  | nil => rfl
  | cons count counts ih =>
    have hnext : loader.next count = loader.nextRow count := if_pos h
    rw [calls, hnext]
    cases i with
    | zero =>
      simp only [List.getElem?_cons_zero, Option.map_some, List.take_zero]
      cases hp : loader.pending <;> simp [nextRow, peek, hp, textsRead, Reading.behindEnd]
    | succ i =>
      obtain ⟨hfile, hpassed⟩ := file_advance loader
      rw [List.getElem?_cons_succ, List.getElem?_cons_succ, nextRow, ih (hpassed.trans h), hfile, lines_advance,
        pending_advance, Nat.add_assoc loader.lines, textsRead_take_add]
      simp [List.getD_eq_getElem?_getD]

/-! ## The first call -/

variable {file : String} {script : Script} {header : Reading} {rest : List Reading}

/-- Of a log whose header is a line, the calls are those of a loader that begins behind it. -/
theorem calls_ofScript_of_line (hr : script.readings = header :: rest) {text : String} (ho : header.outcome = .line text)
    (counts : List Nat) : (ofScript file script).calls counts = (⟨file, rest, 1, true⟩ : Loader).calls counts := by
  cases counts with
  | nil => rfl
  | cons count counts => simp [calls, next, ofScript, peek, advance, hr, ho]

/-- Of a log that ends at once, the first call finds the end, and the others begin behind it. -/
theorem calls_ofScript_of_finished (hr : script.readings = header :: rest) (ho : header.outcome = .finished) (count : Nat)
    (counts : List Nat) :
    (ofScript file script).calls (count :: counts) = .ok none :: (⟨file, rest, 0, true⟩ : Loader).calls counts := by
  simp [calls, next, ofScript, peek, advance, hr, ho]

end Loader

/-! ## Texts without a failure -/

/-- What a call returns for the line of a number, or for no line: the end, a row with the fields of the line, or the number of
its fields if that is not the expected one. -/
inductive Judged (file : String) (number count : Nat) : Option String → Except LogError (Option Row) → Prop where
  | finished : Judged file number count none (.ok none)
  | row {line : String} {fs : List String} (hf : Text.Fields line fs) (hc : fs.length = count) :
    Judged file number count (some line) (.ok (some ⟨file, number, fs⟩))
  | fieldCount {line : String} {fs : List String} (hf : Text.Fields line fs) (hc : fs.length ≠ count) :
    Judged file number count (some line) (.error (.fieldCount file number count fs.length))

/-- The outcome of reading a line of a text, or of reading behind the last one. -/
def Outcome.ofLine? : Option String → Outcome
  | some text => .line text
  | none => .finished

/-- The reading of a line is judged as the line is, in exactly one way. -/
theorem judged_iff (file : String) (number count : Nat) (line? : Option String) {reading : Reading}
    (hr : reading.outcome = Outcome.ofLine? line?) (outcome : Except LogError (Option Row)) :
    Judged file number count line? outcome ↔ Row.ofReading file number count reading = outcome := by
  cases line? with
  | none =>
    rw [Row.ofReading, hr]
    constructor
    · rintro ⟨⟩
      rfl
    · rintro rfl
      exact .finished
  | some line =>
    have hfields := (Text.fields_iff line (Text.fields line)).mpr rfl
    rw [Row.ofReading, hr]
    simp only [Outcome.ofLine?, Row.ofLine]
    constructor
    · rintro (_ | ⟨hf, hc⟩ | ⟨hf, hc⟩)
      · rw [(Text.fields_iff line _).mp hf, if_pos hc]
        rfl
      · rw [(Text.fields_iff line _).mp hf, if_neg hc]
        rfl
    · rintro rfl
      split
      · next hc => exact .row hfields hc
      · next hc => exact .fieldCount hfields hc

/-- The readings of a text that arrives without a failure are its lines, and the end. -/
theorem outcomes_of_text {script : Script} {text : String} (h : script.failure? = none)
    (hd : script.delivered = Text.utf8 text) :
    outcomes script.readings = (Text.textLines text).map Outcome.line ++ [.finished] := by
  rw [outcomes_of_unbroken script h, hd, Text.lines_utf8, List.map_map]
  congr 1
  refine List.map_congr_left fun line _ => ?_
  simp [Outcome.ofBytes, Text.ofUtf8?_utf8]

/-- The outcome at an index among lines and the end; behind them stands the end. -/
theorem outcome_getD_of_lines {readings : List Reading} {ls : List String}
    (h : outcomes readings = ls.map Outcome.line ++ [.finished]) (i : Nat) :
    (readings.getD i Reading.behindEnd).outcome = Outcome.ofLine? ls[i]? := by
  have hget : (readings.getD i Reading.behindEnd).outcome = (ls.map Outcome.line ++ [Outcome.finished])[i]?.getD .finished := by
    rw [← h, outcomes, List.getElem?_map, List.getD_eq_getElem?_getD]
    cases readings[i]? <;> rfl
  rw [hget]
  by_cases hi : i < ls.length
  · rw [List.getElem?_append_left (by simpa using hi), List.getElem?_map, List.getElem?_eq_getElem hi]
    rfl
  · rw [List.getElem?_append_right (by simpa using hi), List.getElem?_eq_none (Nat.le_of_not_lt hi), Outcome.ofLine?]
    cases hj : [Outcome.finished][i - (ls.map Outcome.line).length]? with
    | none => rfl
    | some outcome =>
      rw [List.mem_singleton.mp (List.mem_of_getElem? hj)]
      rfl

/-- Among lines and the end all readings before a line are lines. -/
theorem textsRead_take_of_lines {readings : List Reading} {ls : List String}
    (h : outcomes readings = ls.map Outcome.line ++ [.finished]) {i : Nat} (hi : i ≤ ls.length) :
    textsRead (readings.take i) = i := by
  have hcount : textsRead (readings.take i) = ((outcomes readings).take i).countP Outcome.isLine := by
    rw [outcomes, ← List.map_take, List.countP_map]
    rfl
  have hall : ∀ outcome ∈ (ls.take i).map Outcome.line, outcome.isLine = true := by
    intro outcome hmem
    obtain ⟨text, -, rfl⟩ := List.mem_map.mp hmem
    rfl
  rw [hcount, h, List.take_append_of_le_length (by simpa using hi), ← List.map_take, List.countP_eq_length.mpr hall]
  rw [List.length_map, List.length_take, Nat.min_eq_left hi]

/-- In a text that arrives without a failure, call `i` judges the line at index `i + 1`, the one behind the header being that at
index 1. -/
theorem judged_calls (file : String) {script : Script} {text : String} (h : script.failure? = none)
    (hd : script.delivered = Text.utf8 text) {counts : List Nat} {i count : Nat} (hi : counts[i]? = some count)
    (outcome : Except LogError (Option Row)) :
    Judged file (i + 2) count (Text.textLines text)[i + 1]? outcome ↔
      ((Loader.ofScript file script).calls counts)[i]? = some outcome := by
  have hall := outcomes_of_text h hd
  obtain ⟨header, rest, hr⟩ : ∃ header rest, script.readings = header :: rest :=
    List.exists_cons_of_ne_nil fun hnil => by simp [hnil, outcomes] at hall
  rw [hr, outcomes, List.map_cons] at hall
  cases hls : Text.textLines text with
  | nil =>
    -- the header's reading is the end, and nothing stands behind it
    rw [hls] at hall
    obtain ⟨ho, hrest⟩ := List.cons_eq_cons.mp hall
    obtain rfl : rest = [] := List.map_eq_nil_iff.mp hrest
    have hend : Reading.behindEnd.outcome = Outcome.ofLine? none := rfl
    rw [List.getElem?_nil, judged_iff file (i + 2) count none hend]
    cases counts with
    | nil => cases hi
    | cons first counts =>
      rw [Loader.calls_ofScript_of_finished hr ho]
      cases i with
      | zero => simp [Row.ofReading, Reading.behindEnd]
      | succ i =>
        rw [List.getElem?_cons_succ] at hi
        rw [List.getElem?_cons_succ, Loader.calls_of_passed rfl, hi]
        simp [Row.ofReading, Reading.behindEnd]
  | cons line ls =>
    rw [hls] at hall
    obtain ⟨ho, hrest⟩ := List.cons_eq_cons.mp hall
    have hreading := outcome_getD_of_lines hrest i
    rw [Loader.calls_ofScript_of_line hr ho, Loader.calls_of_passed rfl, hi, Option.map_some, Option.some_inj,
      List.getElem?_cons_succ, judged_iff _ _ _ _ hreading]
    by_cases hlt : i ≤ ls.length
    · rw [textsRead_take_of_lines hrest hlt, Nat.add_comm 1 i]
    · -- behind the end no number is given
      rw [List.getElem?_eq_none (by omega)] at hreading
      simp only [Row.ofReading, hreading, Outcome.ofLine?]

/-- A call returns the end only where there is no line. -/
theorem judged_end_iff (file : String) (number count : Nat) (line? : Option String) :
    Judged file number count line? (.ok none) ↔ line? = none := by
  constructor
  · rintro ⟨⟩
    rfl
  · rintro rfl
    exact .finished

/-- In a text that arrives without a failure, each call judges its own line, by the number of that line, in exactly one way. So
calls for one line with one count agree, whatever stands before and behind the line and whatever the other counts are; and
behind the end every call returns the end. -/
theorem calls_judge_own_line (file : String) {script : Script} {text : String} (h : script.failure? = none)
    (hd : script.delivered = Text.utf8 text) (counts : List Nat) :
    ((Loader.ofScript file script).calls counts).length = counts.length ∧
      (∀ i count, counts[i]? = some count → ∃ outcome, ((Loader.ofScript file script).calls counts)[i]? = some outcome ∧
        ∀ other, Judged file (i + 2) count (Text.textLines text)[i + 1]? other ↔ other = outcome) ∧
      (∀ script' text', script'.failure? = none → script'.delivered = Text.utf8 text' → ∀ (counts' : List Nat) (i : ℕ),
        counts'[i]? = counts[i]? → (Text.textLines text')[i + 1]? = (Text.textLines text)[i + 1]? →
          ((Loader.ofScript file script').calls counts')[i]? = ((Loader.ofScript file script).calls counts)[i]?) ∧
      ∀ i j, i ≤ j → j < counts.length → ((Loader.ofScript file script).calls counts)[i]? = some (.ok none) →
        ((Loader.ofScript file script).calls counts)[j]? = some (.ok none) := by
  have hlength := Loader.length_calls (Loader.ofScript file script) counts
  refine ⟨hlength, ?_, ?_, ?_⟩
  · intro i count hi
    have hlt : i < ((Loader.ofScript file script).calls counts).length := hlength ▸ (List.getElem?_eq_some_iff.mp hi).1
    refine ⟨_, List.getElem?_eq_getElem hlt, fun other => ?_⟩
    rw [judged_calls file h hd hi, List.getElem?_eq_getElem hlt, Option.some_inj]
    exact eq_comm
  · intro script' text' h' hd' counts' i hcounts hlines
    cases hi : counts[i]? with
    | none =>
      have hnone := (List.getElem?_eq_none_iff.mp hi)
      have hnone' := (List.getElem?_eq_none_iff.mp (hcounts.trans hi))
      rw [List.getElem?_eq_none (by rwa [Loader.length_calls]), List.getElem?_eq_none (by rwa [Loader.length_calls])]
    | some count =>
      refine Option.ext fun outcome => ?_
      rw [← judged_calls file h' hd' (hcounts.trans hi), ← judged_calls file h hd hi, hlines]
  · intro i j hij hj hend
    obtain ⟨count, hi⟩ : ∃ count, counts[i]? = some count := ⟨_, List.getElem?_eq_getElem (hij.trans_lt hj)⟩
    rw [← judged_calls file h hd hi, judged_end_iff, List.getElem?_eq_none_iff] at hend
    rw [← judged_calls file h hd (List.getElem?_eq_getElem hj), judged_end_iff, List.getElem?_eq_none_iff]
    omega

/-- A row of the wrong length stands between two others; the text arrives in pieces, its last line is not ended, and the calls
go on behind the end. -/
theorem row_behind_refused_row :
    Script.failure? [.bytes (Text.utf8 "h\n1 2\n3"), .interruption, .bytes (Text.utf8 "\n4 5")] = none ∧
      Script.delivered [.bytes (Text.utf8 "h\n1 2\n3"), .interruption, .bytes (Text.utf8 "\n4 5")] =
        Text.utf8 "h\n1 2\n3\n4 5" ∧
      ∃ calls, (Loader.ofScript "log" [.bytes (Text.utf8 "h\n1 2\n3"), .interruption, .bytes (Text.utf8 "\n4 5")]).calls
          [2, 2, 2, 2, 1] = calls ∧
        calls[1]? = some (.error (.fieldCount "log" 3 2 1)) ∧ calls[2]? = some (.ok (some ⟨"log", 4, ["4", "5"]⟩)) ∧
          calls[4]? = some (.ok none) := by
  have hdelivered : Script.delivered [.bytes (Text.utf8 "h\n1 2\n3"), .interruption, .bytes (Text.utf8 "\n4 5")] =
      Text.utf8 "h\n1 2\n3\n4 5" := by decide +kernel
  have hlines : Text.textLines "h\n1 2\n3\n4 5" = ["h\n", "1 2\n", "3\n", "4 5"] := by decide +kernel
  obtain ⟨-, heach, -, hend⟩ := calls_judge_own_line "log" rfl hdelivered [2, 2, 2, 2, 1]
  obtain ⟨refused, hrefused, hone⟩ := heach 1 2 rfl
  obtain ⟨row, hrow, htwo⟩ := heach 2 2 rfl
  obtain ⟨last, hlast, hthree⟩ := heach 3 2 rfl
  rw [hlines] at hone htwo hthree
  have hshort : Text.Fields "3\n" ["3"] := (Text.fields_iff _ _).mpr (by decide +kernel)
  have hwhole : Text.Fields "4 5" ["4", "5"] := (Text.fields_iff _ _).mpr (by decide +kernel)
  obtain rfl := (hone _).mp (.fieldCount hshort (by decide))
  obtain rfl := (htwo _).mp (.row hwhole rfl)
  obtain rfl := (hthree _).mp .finished
  exact ⟨rfl, hdelivered, _, rfl, hrefused, hrow, hend 3 4 (by decide) (by decide) hlast⟩

end StreamCharts
