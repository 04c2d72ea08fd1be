import Mathlib.Data.List.Basic
import StreamCharts.Log.Scenario

/-!
# Loading the logs of a scenario

The three logs of a scenario are read in the order of their kinds, and `FailsFirst` says which is the first that cannot be read.
Loading then gives its error and the notes on the logs up to it (`load_of_failsFirst`); otherwise it gives the three series
(`load_of_reads`). The main statement is `scenario_read_up_to_first_failing_log`: neither a log behind the first that fails nor any
other file has a part in the result.
-/

namespace StreamCharts

/-! ## The file that an error is about -/

/-- The file that an error is about, by its path or by the name of its reader. -/
def LogError.file : LogError → String
  | .notOpened path _ => path
  | .notRead file _ _ => file
  | .fieldCount file _ _ _ => file
  | .invalidNumber file _ _ _ => file

/-- The message of an error names the file. -/
theorem LogError.file_in_message (e : LogError) : ∃ before behind, e.message = before ++ e.file ++ behind := by
  cases e with
  | notOpened path cause => exact ⟨"failed to open ", ": " ++ cause.message, String.append_assoc ..⟩
  | notRead file line cause =>
    refine ⟨"failed to read ", " at line " ++ Numeral.decimal line ++ ": " ++ cause.message, ?_⟩
    change "failed to read " ++ file ++ " at line " ++ Numeral.decimal line ++ ": " ++ cause.message =
      "failed to read " ++ file ++ (" at line " ++ Numeral.decimal line ++ ": " ++ cause.message)
    simp only [String.append_assoc]
  | fieldCount file line expected found =>
    refine ⟨"", ":" ++ Numeral.decimal line ++ ": expected " ++ Numeral.decimal expected ++ " fields, found " ++
      Numeral.decimal found, ?_⟩
    change file ++ ":" ++ Numeral.decimal line ++ ": expected " ++ Numeral.decimal expected ++ " fields, found " ++
      Numeral.decimal found = "" ++ file ++ (":" ++ Numeral.decimal line ++ ": expected " ++ Numeral.decimal expected ++
        " fields, found " ++ Numeral.decimal found)
    simp only [String.append_assoc, String.empty_append]
  | invalidNumber file line column token =>
    refine ⟨"", ":" ++ Numeral.decimal line ++ ": invalid " ++ column ++ " value " ++ Text.quoted token, ?_⟩
    change file ++ ":" ++ Numeral.decimal line ++ ": invalid " ++ column ++ " value " ++ Text.quoted token =
      "" ++ file ++ (":" ++ Numeral.decimal line ++ ": invalid " ++ column ++ " value " ++ Text.quoted token)
    simp only [String.append_assoc, String.empty_append]

/-- An error in a field is about the file of its row. -/
theorem Row.file_of_value_error {α : Type} {row : Row} {index : Nat} {column : String} {read? : String → Option α} {e : LogError}
    (h : row.value index column read? = .error e) : e.file = row.file := by
  simp only [Row.value] at h
  split at h
  · cases h
  · cases h
    rfl

/-- What a reading of a line means is about the file that is read: the row, or the error. -/
theorem Row.file_of_ofReading (file : String) (line count : Nat) (reading : Reading) :
    (∀ e, Row.ofReading file line count reading = .error e → e.file = file) ∧
      ∀ row, Row.ofReading file line count reading = .ok (some row) → row.file = file := by
  cases hread : reading.outcome with
  | finished => simp [Row.ofReading, hread]
  | failed fault =>
    simp only [Row.ofReading, hread]
    exact ⟨fun e h => by cases h; rfl, nofun⟩
  | line text =>
    simp only [Row.ofReading, hread, Row.ofLine]
    split
    · exact ⟨nofun, fun row h => by cases h; rfl⟩
    · exact ⟨fun e h => by cases h; rfl, nofun⟩

namespace Columns

variable {α β : Type} (c : Columns α β) {file : String} {e : LogError}

/-- An error in a row is about its file. -/
theorem file_of_sample_error {row : Row} (h : c.sample row = .error e) : e.file = row.file := by
  simp only [sample, bind, Except.bind] at h
  split at h
  · rename_i hx
    cases h
    exact Row.file_of_value_error hx
  · split at h
    · rename_i hy
      cases h
      exact Row.file_of_value_error hy
    · cases h

/-- An error that stops a scan is about the file that is scanned. -/
theorem file_of_scan_error {lines : Nat} {readings : List Reading} (h : (c.scan file lines readings).error? = some e) :
    e.file = file := by
  induction readings generalizing lines with
  | nil => cases h
  | cons reading rest ih =>
    obtain ⟨hfails, hrow⟩ := Row.file_of_ofReading file (lines + 1) c.fieldCount reading
    rw [scan] at h
    split at h
    · rename_i he
      cases h
      exact hfails e he
    · cases h
    · rename_i row hread
      split at h
      · rename_i he
        cases h
        exact (c.file_of_sample_error he).trans (hrow row hread)
      · exact ih h

/-- An error in a log is about its file. -/
theorem file_of_scanLog_error {γ : Type} {script : Script} {f : List (Sample α β) → γ}
    (h : (c.scanLog file script).result.map f = .error e) : e.file = file := by
  have herror : (c.scanLog file script).error? = some e := by
    rw [Scan.result] at h
    split at h
    · rename_i he
      cases h
      exact he
    · cases h
  rw [scanLog] at herror
  split at herror
  · cases herror
  · split at herror
    · exact c.file_of_scan_error herror
    · cases herror
    · cases herror
      rfl

end Columns

/-- The error of a result, if it has one. -/
def errorOf? {α : Type} : Except LogError α → Option LogError
  | .error e => some e
  | .ok _ => none

/-- A result has an error if it is one. -/
theorem errorOf?_eq_some_iff {α : Type} (result : Except LogError α) (e : LogError) :
    errorOf? result = some e ↔ result = .error e := by
  cases result with
  | error e' => simp [errorOf?]
  | ok a => simp [errorOf?]

/-- A result without an error has a value. -/
theorem errorOf?_eq_none_iff {α : Type} (result : Except LogError α) : errorOf? result = none ↔ ∃ a, result = .ok a := by
  cases result with
  | error e' => simp [errorOf?]
  | ok a => simp [errorOf?]

namespace ScenarioLogs

variable (opener : Opener) (directory : String) (naming : LogNaming)

/-! ## One log -/

/-- The reading of the log of a kind: the number of its points or why it fails, and the rows that are noted as repeated. -/
def reading (kind : LogKind) : Except LogError Nat × Journal :=
  let path := path directory naming kind
  match kind with
  | .adaptation => ((loadAdaptation opener path).map Series.length, [])
  | .buffer => ((loadBuffer opener path).map Series.length, [])
  | .throughput => ((loadThroughput opener path).1.map Series.length, (loadThroughput opener path).2)

/-- Why the log of a kind cannot be read, if it cannot. -/
def failure? (kind : LogKind) : Option LogError :=
  let path := path directory naming kind
  match kind with
  | .adaptation => errorOf? (loadAdaptation opener path)
  | .buffer => errorOf? (loadBuffer opener path)
  | .throughput => errorOf? (loadThroughput opener path).1

/-- What is noted on the log of a kind: that it is opened, the rows that are repeated, and how many points it has. -/
def notesOn (kind : LogKind) : Journal :=
  readingRecord (path directory naming kind) :: (reading opener directory naming kind).2 ++
    match (reading opener directory naming kind).1 with
    | .error _ => []
    | .ok count => [parsedRecord kind count]

variable {opener directory naming}

/-- The reading of a log depends on the file at its path. -/
theorem reading_congr {opener' : Opener} {kind : LogKind}
    (h : opener' (path directory naming kind) = opener (path directory naming kind)) :
    reading opener' directory naming kind = reading opener directory naming kind := by
  cases kind with
  | adaptation => simp only [reading, loadAdaptation, h]
  | buffer => simp only [reading, loadBuffer, h]
  | throughput => simp only [reading, loadThroughput, h]

/-- Why a log cannot be read depends on the file at its path. -/
theorem failure?_congr {opener' : Opener} {kind : LogKind}
    (h : opener' (path directory naming kind) = opener (path directory naming kind)) :
    failure? opener' directory naming kind = failure? opener directory naming kind := by
  cases kind with
  | adaptation => simp only [failure?, loadAdaptation, h]
  | buffer => simp only [failure?, loadBuffer, h]
  | throughput => simp only [failure?, loadThroughput, h]

/-- What is noted on a log depends on the file at its path. -/
theorem notesOn_congr {opener' : Opener} {kind : LogKind}
    (h : opener' (path directory naming kind) = opener (path directory naming kind)) :
    notesOn opener' directory naming kind = notesOn opener directory naming kind := by
  rw [notesOn, reading_congr h, notesOn]

/-- The rows noted as repeated are notes for those who look for faults. -/
theorem repeated_notes (kind : LogKind) : ∀ record ∈ (reading opener directory naming kind).2,
    record.level = .debug ∧ record.topic = .logs := by
  cases kind with
  | adaptation => exact nofun
  | buffer => exact nofun
  | throughput =>
    simp only [reading, loadThroughput]
    split
    · exact nofun
    · intro record hrecord
      obtain ⟨sample, -, rfl⟩ := List.mem_map.mp hrecord
      exact ⟨rfl, rfl⟩

/-- What is noted on a log is no warning and no error. -/
theorem notesOn_levels (kind : LogKind) : ∀ record ∈ notesOn opener directory naming kind,
    (record.level = .debug ∨ record.level = .info) ∧ record.topic = .logs := by
  intro record hrecord
  rw [notesOn, List.cons_append, List.mem_cons, List.mem_append] at hrecord
  rcases hrecord with rfl | hrecord | hrecord
  · exact ⟨Or.inl rfl, rfl⟩
  · obtain ⟨hlevel, htopic⟩ := repeated_notes kind record hrecord
    exact ⟨Or.inl hlevel, htopic⟩
  · split at hrecord
    · cases hrecord
    · obtain rfl := List.mem_singleton.mp hrecord
      exact ⟨Or.inr rfl, rfl⟩

/-- Why a log cannot be read is about the file at its path. -/
theorem file_of_failure {kind : LogKind} {e : LogError} (h : failure? opener directory naming kind = some e) :
    e.file = path directory naming kind := by
  cases kind with
  | adaptation =>
    rw [failure?, errorOf?_eq_some_iff, loadAdaptation] at h
    split at h
    · cases h
      rw [LogError.file]
    · exact adaptationColumns.file_of_scanLog_error h
  | buffer =>
    rw [failure?, errorOf?_eq_some_iff, loadBuffer] at h
    split at h
    · cases h
      rw [LogError.file]
    · exact bufferColumns.file_of_scanLog_error h
  | throughput =>
    rw [failure?, errorOf?_eq_some_iff, loadThroughput] at h
    split at h
    · cases h
      rw [LogError.file]
    · exact throughputColumns.file_of_scanLog_error h

/-! ## The three logs -/

variable (opener directory naming)

/-- All three logs can be read, each with its own series. -/
structure Reads (logs : ScenarioLogs) : Prop where
  adaptation : loadAdaptation opener (path directory naming .adaptation) = .ok logs.adaptation
  buffer : loadBuffer opener (path directory naming .buffer) = .ok logs.buffer
  throughput : (loadThroughput opener (path directory naming .throughput)).1 = .ok logs.throughput

/-- The log of a kind is the first that cannot be read, for the reason `e`, and those of the kinds `earlier` stand before it. -/
structure FailsFirst (earlier : List LogKind) (kind : LogKind) (e : LogError) : Prop where
  order : ∃ later, LogKind.all = earlier ++ kind :: later
  readable : ∀ k ∈ earlier, failure? opener directory naming k = none
  fails : failure? opener directory naming kind = some e

variable {opener directory naming}

/-- Loading gives the three series of logs that can be read, and warns of those without points. -/
theorem load_of_reads {logs : ScenarioLogs} (h : Reads opener directory naming logs) :
    load opener directory naming = (.ok logs, LogKind.all.flatMap (notesOn opener directory naming) ++ logs.warnings) := by
  obtain ⟨ha, hb, ht⟩ := h
  rcases hload : loadThroughput opener (path directory naming .throughput) with ⟨result, repeated⟩
  obtain rfl : result = .ok logs.throughput := by rwa [hload] at ht
  simp [load, ha, hb, hload, LogKind.all, notesOn, reading, Except.map]

/-- Loading ends with the first log that cannot be read. -/
theorem load_of_failsFirst {earlier : List LogKind} {kind : LogKind} {e : LogError}
    (h : FailsFirst opener directory naming earlier kind e) :
    load opener directory naming = (.error e, (earlier ++ [kind]).flatMap (notesOn opener directory naming)) := by
  obtain ⟨⟨later, horder⟩, hreadable, hfails⟩ := h
  -- the kinds before the failing one are none, one or two, and these are known to be readable
  rcases earlier with _ | ⟨first, _ | ⟨second, _ | ⟨third, earlier⟩⟩⟩
  · cases horder
    rw [failure?, errorOf?_eq_some_iff] at hfails
    simp [load, hfails, notesOn, reading, Except.map]
  · cases horder
    obtain ⟨adaptation, ha⟩ := (errorOf?_eq_none_iff _).mp (hreadable .adaptation (by simp))
    rw [failure?, errorOf?_eq_some_iff] at hfails
    simp [load, ha, hfails, notesOn, reading, Except.map]
  · cases horder
    obtain ⟨adaptation, ha⟩ := (errorOf?_eq_none_iff _).mp (hreadable .adaptation (by simp))
    obtain ⟨buffer, hb⟩ := (errorOf?_eq_none_iff _).mp (hreadable .buffer (by simp))
    rw [failure?, errorOf?_eq_some_iff] at hfails
    rcases hload : loadThroughput opener (path directory naming .throughput) with ⟨result, repeated⟩
    obtain rfl : result = .error e := by rwa [hload] at hfails
    simp [load, ha, hb, hload, notesOn, reading, Except.map]
  · exact absurd (congrArg List.length horder) (by simp [LogKind.all])

/-- All logs can be read, or there is a first one that cannot. -/
theorem load_cases (opener : Opener) (directory : String) (naming : LogNaming) :
    (∃ logs, Reads opener directory naming logs) ∨ ∃ earlier kind e, FailsFirst opener directory naming earlier kind e := by
  cases hfirst : LogKind.all.findSome? (failure? opener directory naming) with
  | some e =>
    obtain ⟨earlier, kind, later, horder, hfails, hreadable⟩ := List.findSome?_eq_some_iff.mp hfirst
    exact Or.inr ⟨earlier, kind, e, ⟨later, horder⟩, hreadable, hfails⟩
  | none =>
    have hreadable := List.findSome?_eq_none_iff.mp hfirst
    obtain ⟨adaptation, ha⟩ := (errorOf?_eq_none_iff _).mp (hreadable .adaptation (by simp [LogKind.all]))
    obtain ⟨buffer, hb⟩ := (errorOf?_eq_none_iff _).mp (hreadable .buffer (by simp [LogKind.all]))
    obtain ⟨throughput, ht⟩ := (errorOf?_eq_none_iff _).mp (hreadable .throughput (by simp [LogKind.all]))
    exact Or.inl ⟨⟨adaptation, buffer, throughput⟩, ha, hb, ht⟩

/-- Loading succeeds with the series of logs that can all be read. -/
theorem load_eq_ok_iff (logs : ScenarioLogs) :
    (load opener directory naming).1 = .ok logs ↔ Reads opener directory naming logs := by
  constructor
  · intro h
    rcases load_cases opener directory naming with ⟨logs', hreads⟩ | ⟨earlier, kind, e, hfails⟩
    · rw [load_of_reads hreads] at h
      cases h
      exact hreads
    · rw [load_of_failsFirst hfails] at h
      cases h
  · intro h
    rw [load_of_reads h]

/-- Loading fails for the reason of the first log that cannot be read. -/
theorem load_eq_error_iff (e : LogError) :
    (load opener directory naming).1 = .error e ↔ ∃ earlier kind, FailsFirst opener directory naming earlier kind e := by
  constructor
  · intro h
    rcases load_cases opener directory naming with ⟨logs, hreads⟩ | ⟨earlier, kind, e', hfails⟩
    · rw [load_of_reads hreads] at h
      cases h
    · rw [load_of_failsFirst hfails] at h
      cases h
      exact ⟨earlier, kind, hfails⟩
  · rintro ⟨earlier, kind, hfails⟩
    rw [load_of_failsFirst hfails]

/-- The first log that cannot be read is the same among files that agree on it and on those before it. -/
theorem FailsFirst.congr {earlier : List LogKind} {kind : LogKind} {e : LogError}
    (h : FailsFirst opener directory naming earlier kind e) {opener' : Opener}
    (hagree : ∀ k ∈ earlier ++ [kind], opener' (path directory naming k) = opener (path directory naming k)) :
    FailsFirst opener' directory naming earlier kind e := by
  refine ⟨h.order, fun k hk => ?_, ?_⟩
  · rw [failure?_congr (hagree k (by simp [hk]))]
    exact h.readable k hk
  · rw [failure?_congr (hagree kind (by simp))]
    exact h.fails

/-- Loading depends on the three files. -/
theorem load_congr {opener' : Opener}
    (h : ∀ kind, opener' (path directory naming kind) = opener (path directory naming kind)) :
    load opener' directory naming = load opener directory naming := by
  simp only [load, loadAdaptation, loadBuffer, loadThroughput, h]

/-- Kinds have different words. -/
theorem word_injective : Function.Injective LogKind.word := by
  intro kind kind' h
  cases kind <;> cases kind' <;> first | rfl | exact absurd h (by decide)

/-- The logs of a directory have different paths. -/
theorem path_injective (directory : String) (naming : LogNaming) : Function.Injective (path directory naming) := by
  intro kind kind' h
  have hname (k : LogKind) : Path.isAbsolute (naming.fileName k) = false := by
    simp [Path.isAbsolute, LogNaming.fileName, String.toList_append]
  have hnames : naming.fileName kind = naming.fileName kind' := by
    rw [path, path, Path.join, Path.join, hname, hname] at h
    simp only [Bool.false_eq_true, if_false] at h
    split at h
    · exact h
    · split at h
      · exact (String.append_right_inj _).mp h
      · exact (String.append_right_inj _).mp h
  exact word_injective ((String.append_right_inj _).mp ((String.append_left_inj _).mp hnames))

/-- All that is noted before the warnings is no warning. -/
theorem filter_warn_notesOn (kinds : List LogKind) :
    (kinds.flatMap (notesOn opener directory naming)).filter (fun record => record.level = .warn) = [] := by
  refine List.filter_eq_nil_iff.mpr fun record hrecord => ?_
  obtain ⟨kind, -, hmem⟩ := List.mem_flatMap.mp hrecord
  rcases (notesOn_levels kind record hmem).1 with hlevel | hlevel
  · simp [hlevel]
  · simp [hlevel]

/-- The warnings are warnings. -/
theorem filter_warn_warnings (logs : ScenarioLogs) : logs.warnings.filter (fun record => record.level = .warn) = logs.warnings := by
  refine List.filter_eq_self.mpr fun record hrecord => ?_
  obtain ⟨kind, -, rfl⟩ := List.mem_map.mp hrecord
  rfl

/-! ## What is loaded of a scenario -/

/-- The logs of a scenario are loaded if and only if each can be read on its own. -/
theorem load_eq_ok_iff_each (logs : ScenarioLogs) :
    (load opener directory naming).1 = .ok logs ↔
      loadAdaptation opener (path directory naming .adaptation) = .ok logs.adaptation ∧
        loadBuffer opener (path directory naming .buffer) = .ok logs.buffer ∧
        (loadThroughput opener (path directory naming .throughput)).1 = .ok logs.throughput := by
  rw [load_eq_ok_iff]
  exact ⟨fun h => ⟨h.adaptation, h.buffer, h.throughput⟩, fun ⟨ha, hb, ht⟩ => ⟨ha, hb, ht⟩⟩

/-- The warnings are on the logs without points, if all can be read. -/
theorem warnings_of_load {logs : ScenarioLogs} (h : (load opener directory naming).1 = .ok logs) :
    (load opener directory naming).2.filter (fun record => record.level = .warn) =
      (LogKind.all.filter logs.isEmpty).map emptyRecord := by
  rw [load_of_reads ((load_eq_ok_iff logs).mp h), List.filter_append, filter_warn_notesOn, filter_warn_warnings, List.nil_append]
  rfl

/-- Trees with the same logs give the same. -/
theorem load_congr_of_find {tree tree' : Tree} (h : ∀ kind, tree.find (path directory naming kind) = tree'.find (path directory naming kind)) :
    load tree.openFile directory naming = load tree'.openFile directory naming := by
  refine load_congr fun kind => ?_
  rw [Tree.openFile, Tree.openFile, h kind]

namespace FailsFirst

variable {earlier : List LogKind} {kind : LogKind} {e : LogError}

/-- The error is about the file at the path of the log. -/
theorem file_eq (h : FailsFirst opener directory naming earlier kind e) : e.file = path directory naming kind :=
  file_of_failure h.fails

/-- The path of the log is named in the message. -/
theorem path_in_message (h : FailsFirst opener directory naming earlier kind e) :
    ∃ before behind, e.message = before ++ path directory naming kind ++ behind :=
  h.file_eq ▸ e.file_in_message

/-- Only this log and those before it are noted as opened. -/
theorem notes_eq (h : FailsFirst opener directory naming earlier kind e) :
    (load opener directory naming).2 = (earlier ++ [kind]).flatMap (notesOn opener directory naming) := by
  rw [load_of_failsFirst h]

/-- No log is warned about. -/
theorem level_ne_warn (h : FailsFirst opener directory naming earlier kind e) :
    ∀ record ∈ (load opener directory naming).2, record.level ≠ .warn := by
  intro record hrecord hlevel
  rw [h.notes_eq] at hrecord
  have hnone := List.filter_eq_nil_iff.mp (filter_warn_notesOn (earlier ++ [kind])) record hrecord
  exact hnone (decide_eq_true hlevel)

/-- The logs behind this one have no part in the result. -/
theorem load_congr (h : FailsFirst opener directory naming earlier kind e) {opener' : Opener}
    (hagree : ∀ k ∈ earlier ++ [kind], opener' (path directory naming k) = opener (path directory naming k)) :
    load opener' directory naming = load opener directory naming := by
  rw [load_of_failsFirst (h.congr hagree), load_of_failsFirst h]
  congr 1
  exact List.flatMap_congr fun k hk => notesOn_congr (hagree k hk)

end FailsFirst

end ScenarioLogs

/-- The logs of a scenario are loaded if and only if each can be read on its own, and then each series is that of its own file.
Otherwise the error is that of the first log that cannot be read, about the file at its path. Only this log and those before it are
noted as opened, and only they have a part in the result. Warnings stand for the logs without points, and only where all can be
read. -/
theorem scenario_read_up_to_first_failing_log (opener : Opener) (directory : String) (naming : LogNaming) :
    (∀ logs, (ScenarioLogs.load opener directory naming).1 = .ok logs ↔
      loadAdaptation opener (ScenarioLogs.path directory naming .adaptation) = .ok logs.adaptation ∧
        loadBuffer opener (ScenarioLogs.path directory naming .buffer) = .ok logs.buffer ∧
        (loadThroughput opener (ScenarioLogs.path directory naming .throughput)).1 = .ok logs.throughput) ∧
    (∀ e, (ScenarioLogs.load opener directory naming).1 = .error e ↔
      ∃ earlier kind, ScenarioLogs.FailsFirst opener directory naming earlier kind e) ∧
    (∀ earlier kind e, ScenarioLogs.FailsFirst opener directory naming earlier kind e →
      e.file = ScenarioLogs.path directory naming kind ∧
        (∃ before behind, e.message = before ++ ScenarioLogs.path directory naming kind ++ behind) ∧
        (ScenarioLogs.load opener directory naming).2 =
          (earlier ++ [kind]).flatMap (ScenarioLogs.notesOn opener directory naming) ∧
        (∀ record ∈ (ScenarioLogs.load opener directory naming).2, record.level ≠ .warn) ∧
        ∀ opener' : Opener, (∀ k ∈ earlier ++ [kind],
            opener' (ScenarioLogs.path directory naming k) = opener (ScenarioLogs.path directory naming k)) →
          ScenarioLogs.load opener' directory naming = ScenarioLogs.load opener directory naming) ∧
    (∀ logs, (ScenarioLogs.load opener directory naming).1 = .ok logs →
      (ScenarioLogs.load opener directory naming).2.filter (fun record => record.level = .warn) =
        (LogKind.all.filter logs.isEmpty).map ScenarioLogs.emptyRecord) ∧
    Function.Injective (ScenarioLogs.path directory naming) ∧
    ∀ tree tree' : Tree, (∀ kind, tree.find (ScenarioLogs.path directory naming kind) =
        tree'.find (ScenarioLogs.path directory naming kind)) →
      ScenarioLogs.load tree.openFile directory naming = ScenarioLogs.load tree'.openFile directory naming := by
  refine ⟨ScenarioLogs.load_eq_ok_iff_each, ScenarioLogs.load_eq_error_iff, fun earlier kind e h => ?_,
    fun logs => ScenarioLogs.warnings_of_load, ScenarioLogs.path_injective directory naming,
    fun tree tree' => ScenarioLogs.load_congr_of_find⟩
  exact ⟨h.file_eq, h.path_in_message, h.notes_eq, h.level_ne_warn, fun opener' => h.load_congr⟩

/-- Without a buffer log the loading fails, and a throughput log without numbers makes no difference to it. -/
theorem missing_buffer_log_hides_throughput_log :
    (ScenarioLogs.load (Tree.empty.edits [.write "d/sim1_cl0_adaptationLog.txt" (Text.utf8 "head\n1 2 a b c\n")]).openFile "d"
        .standard).1 = .error (.notOpened "d/sim1_cl0_bufferLog.txt" .missing) ∧
      ScenarioLogs.load (Tree.empty.edits [.write "d/sim1_cl0_adaptationLog.txt" (Text.utf8 "head\n1 2 a b c\n"),
          .write "d/sim1_cl0_throughputLog.txt" (Text.utf8 "head\nx y\n")]).openFile "d" .standard =
        ScenarioLogs.load (Tree.empty.edits [.write "d/sim1_cl0_adaptationLog.txt"
          (Text.utf8 "head\n1 2 a b c\n")]).openFile "d" .standard := by
  have hfails : ScenarioLogs.FailsFirst
      (Tree.empty.edits [.write "d/sim1_cl0_adaptationLog.txt" (Text.utf8 "head\n1 2 a b c\n")]).openFile "d" .standard
      [.adaptation] .buffer (.notOpened "d/sim1_cl0_bufferLog.txt" .missing) := by
    refine ⟨⟨[.throughput], rfl⟩, fun k hk => ?_, by decide +kernel⟩
    obtain rfl := List.mem_singleton.mp hk
    decide +kernel
  obtain ⟨-, herror, hfirst, -⟩ := scenario_read_up_to_first_failing_log
    (Tree.empty.edits [.write "d/sim1_cl0_adaptationLog.txt" (Text.utf8 "head\n1 2 a b c\n")]).openFile "d" .standard
  obtain ⟨-, -, -, -, hlater⟩ := hfirst _ _ _ hfails
  refine ⟨(herror _).mpr ⟨_, _, hfails⟩, hlater _ fun k hk => ?_⟩
  obtain rfl | rfl : k = .adaptation ∨ k = .buffer := by simpa using hk
  · decide +kernel
  · decide +kernel

end StreamCharts
