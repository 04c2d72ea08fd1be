import StreamCharts.Proofs.Input.Takes
import StreamCharts.Proofs.Log.Calls

/-!
# Numbers of rows

Which number a row or a refused row carries when reads fail. The number counts the lines that were read before
(`number_of_call`). It is the number of the line in the input exactly as long as no line before it was refused because it is no
text (`row_number_lags_by_refused_lines`): such a line is consumed and not counted. A header that cannot be read is not read
again, and what stands behind it is judged as a row.
-/

namespace StreamCharts

open Text

/-- The number of the line for which a call returns a row, or refuses it for the number of its fields. -/
def judgedNumber? : Except LogError (Option Row) → Option Nat
  | .ok (some row) => some row.line
  | .error (.fieldCount _ line _ _) => some line
  | _ => none

/-- The number in the input of the line that begins behind some takes. -/
def physicalNumber (before : List Take) : Nat :=
  (before.flatMap (·.bytes)).count newline + 1

/-- Whether the first request of a script gives a line. -/
def Script.opensWithLine (script : Script) : Bool :=
  script.takes.head?.any (·.outcome.isLine)

/-- The index of the request that call `i` judges: the first call takes one more, unless that fails. -/
def judgedIndex (script : Script) (i : Nat) : Nat :=
  if script.opensWithLine then i + 1 else i

/-- A reading is judged by a number only if it is a line. -/
theorem judgedNumber?_ofReading {file : String} {number count n : Nat} {reading : Reading}
    (h : judgedNumber? (Row.ofReading file number count reading) = some n) :
    n = number ∧ ∃ text, reading.outcome = .line text := by
  unfold Row.ofReading at h
  cases ho : reading.outcome with
  | line text =>
    refine ⟨?_, text, rfl⟩
    rw [ho] at h
    simp only [Row.ofLine] at h
    split at h
    · exact (Option.some_inj.mp h).symm
    · exact (Option.some_inj.mp h).symm
  | finished =>
    rw [ho] at h
    cases h
  | failed fault =>
    rw [ho] at h
    cases h

/-- There is always a request, be it the one that finds the end. -/
theorem exists_readings_eq_cons (script : Script) : ∃ header rest, script.readings = header :: rest := by
  obtain ⟨firm, last, htakes, -, -⟩ := takesAfter_firm script (List.not_mem_nil (a := newline))
  refine List.exists_cons_of_ne_nil fun hnil => ?_
  have h := outcomes_takes script
  rw [hnil, Script.takes, htakes] at h
  simp [outcomes] at h

/-- The first take of a script is its first reading. -/
theorem opensWithLine_eq {script : Script} {header : Reading} {rest : List Reading} (hr : script.readings = header :: rest) :
    script.opensWithLine = header.outcome.isLine := by
  have h := congrArg List.head? (outcomes_takes script)
  rw [hr, outcomes, List.map_cons, List.head?_cons, List.head?_map] at h
  obtain ⟨take, htake, ho⟩ := Option.map_eq_some_iff.mp h
  rw [Script.opensWithLine, htake, Option.any_some, ho]

/-- Of a log whose first request gives no line, the first call judges none, and the others begin behind it with nothing counted.
-/
theorem Loader.calls_ofScript_of_not_isLine {file : String} {script : Script} {header : Reading} {rest : List Reading}
    (hr : script.readings = header :: rest) (ho : header.outcome.isLine = false) (count : Nat) (counts : List Nat) :
    ∃ first, judgedNumber? first = none ∧
      (ofScript file script).calls (count :: counts) = first :: (⟨file, rest, 0, true⟩ : Loader).calls counts := by
  cases h : header.outcome with
  | line text => simp [h, Outcome.isLine] at ho
  | finished => exact ⟨.ok none, rfl, calls_ofScript_of_finished hr h count counts⟩
  | failed fault =>
    refine ⟨.error (.notRead file 1 fault), rfl, ?_⟩
    simp [calls, next, ofScript, peek, advance, hr, h]

/-- A call that judges a line judges the one of its request, by the number of lines read before. -/
theorem number_of_call {file : String} {script : Script} {counts : List Nat} {i n : Nat}
    {outcome : Except LogError (Option Row)} (hcall : ((Loader.ofScript file script).calls counts)[i]? = some outcome)
    (hn : judgedNumber? outcome = some n) :
    n = textsRead (script.readings.take (judgedIndex script i)) + 1 ∧ 0 < judgedIndex script i ∧
      ∃ count, counts[i]? = some count ∧
        outcome = Row.ofReading file n count (script.readings.getD (judgedIndex script i) Reading.behindEnd) := by
  obtain ⟨header, rest, hr⟩ := exists_readings_eq_cons script
  rw [judgedIndex, opensWithLine_eq hr, hr]
  cases ho : header.outcome.isLine with
  | true =>
    obtain ⟨text, hline⟩ : ∃ text, header.outcome = .line text := by
      cases h : header.outcome with
      | line text => exact ⟨text, rfl⟩
      | finished => simp [h, Outcome.isLine] at ho
      | failed fault => simp [h, Outcome.isLine] at ho
    rw [Loader.calls_ofScript_of_line hr hline, Loader.calls_of_passed rfl] at hcall
    obtain ⟨count, hcount, rfl⟩ := Option.map_eq_some_iff.mp hcall
    obtain ⟨rfl, -⟩ := judgedNumber?_ofReading hn
    refine ⟨?_, ?_, count, hcount, ?_⟩
    · simp [textsRead, ho, Nat.add_comm]
    · simp
    · simp
  | false =>
    rcases counts with _ | ⟨count, counts⟩
    · cases hcall
    obtain ⟨first, hfirst, hcalls⟩ := Loader.calls_ofScript_of_not_isLine hr ho count counts
    rw [hcalls] at hcall
    rcases i with _ | i
    · -- the first call judges no line
      rw [List.getElem?_cons_zero, Option.some_inj] at hcall
      rw [← hcall, hfirst] at hn
      cases hn
    rw [List.getElem?_cons_succ, Loader.calls_of_passed rfl] at hcall
    obtain ⟨count, hcount, rfl⟩ := Option.map_eq_some_iff.mp hcall
    obtain ⟨rfl, -⟩ := judgedNumber?_ofReading hn
    refine ⟨?_, ?_, count, hcount, ?_⟩
    · simp [textsRead, ho]
    · simp
    · simp

/-- As many lines are read by the first requests as there are lines among their takes. -/
theorem textsRead_take (script : Script) (j : Nat) :
    textsRead (script.readings.take j) = (script.takes.take j).countP (·.outcome.isLine) := by
  have h : ((script.readings.take j).map (·.outcome)).countP Outcome.isLine =
      ((script.takes.take j).map (·.outcome)).countP Outcome.isLine := by
    rw [List.map_take, List.map_take, outcomes_takes, outcomes]
  rwa [List.countP_map, List.countP_map] at h

/-- The take of a request that gives a line, with the takes before it. -/
theorem takes_split {script : Script} {j : Nat} {text : String}
    (h : (script.readings.getD j Reading.behindEnd).outcome = .line text) :
    ∃ take after, script.takes = script.takes.take j ++ take :: after ∧ (script.takes.take j).length = j ∧
      take.outcome = .line text := by
  have houtcome : (script.takes.map (·.outcome))[j]? = some (.line text) := by
    rw [List.getD_eq_getElem?_getD] at h
    rw [outcomes_takes, outcomes, List.getElem?_map]
    cases hj : script.readings[j]? with
    | none =>
      rw [hj] at h
      cases h
    | some reading =>
      rw [hj] at h
      exact congrArg some h
  rw [List.getElem?_map] at houtcome
  obtain ⟨take, htake, ho⟩ := Option.map_eq_some_iff.mp houtcome
  obtain ⟨hlt, rfl⟩ := List.getElem?_eq_some_iff.mp htake
  refine ⟨script.takes[j], script.takes.drop (j + 1), ?_, List.length_take_of_le hlt.le, ho⟩
  rw [List.getElem_cons_drop, List.take_append_drop]

/-- If the first request gives a line, there is one among the first takes. -/
theorem countP_isLine_take_pos {script : Script} (h : script.opensWithLine = true) {j : Nat} (hj : 0 < j) :
    0 < (script.takes.take j).countP (·.outcome.isLine) := by
  rw [Script.opensWithLine] at h
  cases htakes : script.takes with
  | nil => simp [htakes] at h
  | cons first rest =>
    rw [htakes, List.head?_cons, Option.any_some] at h
    obtain ⟨j, rfl⟩ := Nat.exists_eq_add_one_of_ne_zero hj.ne'
    simp [h]

/-- A row, or the refusal of a row, is about one request for a line, which gave the fields' text. Its number and the lines that
were refused before it add up to the number of this line in the input, so the two numbers agree exactly as long as no line was
refused. The first request is never judged, and if it gave a line, no number is below 2. -/
theorem row_number_lags_by_refused_lines {file : String} {script : Script} {counts : List Nat} {i n : Nat}
    {outcome : Except LogError (Option Row)} (hcall : ((Loader.ofScript file script).calls counts)[i]? = some outcome)
    (hn : judgedNumber? outcome = some n) :
    ∃ before take after text count, script.takes = before ++ take :: after ∧ before.length = judgedIndex script i ∧
      take.outcome = .line text ∧ Text.ofUtf8? take.bytes = some text ∧ counts[i]? = some count ∧
        outcome = (Row.ofLine file n count text).map some ∧ n + before.countP Take.isRefused = physicalNumber before ∧
          before ≠ [] ∧ (script.opensWithLine = true → 2 ≤ n) := by
  obtain ⟨hnumber, hpos, count, hcount, hout⟩ := number_of_call hcall hn
  obtain ⟨-, text, htext⟩ := judgedNumber?_ofReading (hout ▸ hn)
  obtain ⟨take, after, htakes, hlength, ho⟩ := takes_split htext
  have hfirm := firm_of_takes htakes (by rw [ho]; exact nofun)
  have hmem : take ∈ script.takes := by
    rw [htakes]
    exact List.mem_append_right _ List.mem_cons_self
  have hbytes := ofUtf8?_of_mem_takesAfter script [] take hmem text ho
  rw [textsRead_take] at hnumber
  refine ⟨_, take, after, text, count, htakes, hlength, ho, hbytes, hcount, ?_, ?_, ?_, ?_⟩
  · rw [hout, Row.ofReading, htext]
  · rw [physicalNumber, count_newline_takes hfirm, hnumber]
    omega
  · exact List.ne_nil_of_length_pos (hpos.trans_eq hlength.symm)
  · intro hopens
    rw [hnumber]
    exact Nat.succ_le_succ (countP_isLine_take_pos hopens hpos)

/-- Behind a line that is no text, the row in the third line of the input carries the number 2. -/
theorem row_behind_refused_line :
    ((Loader.ofScript "log" [.bytes (Text.utf8 "h\n"), .bytes [255, 10], .bytes (Text.utf8 "1 2\n")]).calls [2, 2])[1]? =
        some (.ok (some ⟨"log", 2, ["1", "2"]⟩)) ∧
      judgedNumber? (.ok (some ⟨"log", 2, ["1", "2"]⟩)) = some 2 ∧
      ∃ before, before <+: Script.takes [.bytes (Text.utf8 "h\n"), .bytes [255, 10], .bytes (Text.utf8 "1 2\n")] ∧
        before.length = 2 ∧ 2 + before.countP Take.isRefused = physicalNumber before := by
  have hcall : ((Loader.ofScript "log"
      [.bytes (Text.utf8 "h\n"), .bytes [255, 10], .bytes (Text.utf8 "1 2\n")]).calls [2, 2])[1]? =
        some (.ok (some ⟨"log", 2, ["1", "2"]⟩)) := by decide +kernel
  have hindex : judgedIndex [.bytes (Text.utf8 "h\n"), .bytes [255, 10], .bytes (Text.utf8 "1 2\n")] 1 = 2 := by
    decide +kernel
  obtain ⟨before, take, after, text, count, htakes, hlength, -, -, -, -, hnumber, -⟩ :=
    row_number_lags_by_refused_lines hcall rfl
  exact ⟨hcall, rfl, before, ⟨take :: after, htakes.symm⟩, hlength.trans hindex, hnumber⟩

/-- The numbers of rows are not always those of their lines: a refused line is not counted, and behind a header whose reading
was broken off, what is left of it is returned as a row of line 1. -/
theorem numbers_apart_from_lines :
    (Loader.ofScript "log" [.bytes (Text.utf8 "h\n"), .bytes [255, 10], .bytes (Text.utf8 "1 2\n")]).calls [2, 2] =
        [.error (.notRead "log" 2 .notText), .ok (some ⟨"log", 2, ["1", "2"]⟩)] ∧
      physicalNumber ((Script.takes [.bytes (Text.utf8 "h\n"), .bytes [255, 10], .bytes (Text.utf8 "1 2\n")]).take 2) = 3 ∧
      (Loader.ofScript "log" [.failure .missing, .bytes (Text.utf8 "h i\n1 2\n")]).calls [2, 2, 2] =
        [.error (.notRead "log" 1 .missing), .ok (some ⟨"log", 1, ["h", "i"]⟩), .ok (some ⟨"log", 2, ["1", "2"]⟩)] := by
  decide +kernel

end StreamCharts
