import StreamCharts.Proofs.Log.Repeated

/-!
# Logs that grow

A log is read while its simulation goes on, and later again, when lines were added to it. What is read later goes on from what was
read before (`Columns.scanLines_append`): a series grows at its end only, and an error stays as it is (`Grown`). Of the rows that were
added to a throughput log exactly those are kept whose timestamp is new (`newRows`), be the earlier one in the old part or in the new
one. The main statement is `grown_log_goes_on`.
-/

namespace StreamCharts

/-- One series goes on from another: the coordinates of the other, as many first as second ones, are the first of its own. -/
structure Series.GoesOn {α β : Type} (series before : Series α β) : Prop where
  xs : before.xs <+: series.xs
  ys : before.ys <+: series.ys
  length : before.xs.length = before.ys.length

/-- The result on a log that has grown, against the result before: a series goes on from the earlier one, and an error stays. -/
structure Grown {α β : Type} (before after : Except LogError (Series α β)) : Prop where
  ok : ∀ series', after = .ok series' → ∃ series, before = .ok series ∧ series'.GoesOn series
  error : ∀ e, before = .error e → after = .error e

/-- The lines of data among those that were added to bytes: all of them, unless the first is the header. -/
def addedData (bytes more : List UInt8) : List (List UInt8) :=
  if bytes = [] then (Text.lines more).tail else Text.lines more

/-- The rows with their indices whose timestamps are new: neither does an earlier row of their own part have an equal one, nor does
a row before that part. -/
def newRows (before rows : List (Binary64 × Int64)) : List ((Binary64 × Int64) × Nat) :=
  rows.zipIdx.filter fun (row, i) => ¬ Repeats rows row i ∧ ¬ ∃ earlier ∈ before, earlier.1.Equal row.1

/-! ## Parts of a log -/

/-- Points in front of others make the first part of a series. -/
theorem Series.goesOn_of_pairs {α β : Type} {series before : Series α β} (h : before.pairs <+: series.pairs) :
    series.GoesOn before :=
  ⟨h.map Prod.fst, h.map Prod.snd, by simp [xs, ys]⟩

/-- The data of a log that has grown are those it had, and those that were added. -/
theorem tail_lines_append {bytes : List UInt8} (h : bytes = [] ∨ bytes.getLast? = some Text.newline) (more : List UInt8) :
    (Text.lines (bytes ++ more)).tail = (Text.lines bytes).tail ++ addedData bytes more := by
  rw [lines_append h, addedData]
  by_cases hnil : bytes = []
  · simp [hnil, Text.lines]
  · have hlines : Text.lines bytes ≠ [] := fun hempty => hnil (by simpa [hempty] using (Text.flatten_lines bytes).symm)
    rw [if_neg hnil, List.tail_append_of_ne_nil hlines]

namespace Columns

variable {α β : Type} (c : Columns α β) (file : String)

/-- The scan of a log goes on from its first lines to those behind them. -/
theorem scanLines_append (ls more : List (List UInt8)) :
    ∃ later, c.scanLines file (ls ++ more) = (c.scanLines file ls).andThen later := by
  cases ls with
  | nil => exact ⟨c.scanLines file more, rfl⟩
  | cons header data =>
    refine ⟨c.scan file (1 + data.length) (more.map Reading.ofLine), ?_⟩
    simp only [scanLines, List.map_append, List.map_cons, List.cons_append, scanReadings]
    cases ho : (Reading.ofLine header).outcome with
    | line text =>
      simp only
      rw [c.scan_append file 1 _ _ (Reading.ofLine_ne_finished data), List.length_map]
    | finished => exact absurd ho (Outcome.ofBytes_ne_finished header)
    | failed fault => rfl

end Columns

/-- What is made of all points of a scan is made of its result. -/
theorem Scan.result_map_samples {α β γ : Type} (scan : Scan α β) (f : List (Sample α β) → γ) :
    (scan.result.map fun _ => f scan.samples) = scan.result.map f := by
  obtain ⟨samples, _ | e⟩ := scan
  · rfl
  · rfl

/-- What is made of a scan grows with the scan, if it grows with the points. -/
theorem grown_andThen {α β γ δ : Type} {f : List (Sample α β) → Series γ δ}
    (hf : ∀ samples later, (f (samples ++ later)).GoesOn (f samples)) (scan later : Scan α β) :
    Grown (scan.result.map f) ((scan.andThen later).result.map f) := by
  obtain ⟨samples, _ | e⟩ := scan
  · obtain ⟨samples', error?⟩ := later
    refine ⟨fun series' hseries' => ⟨f samples, rfl, ?_⟩, nofun⟩
    cases error? with
    | none =>
      obtain rfl : f (samples ++ samples') = series' := by injection hseries'
      exact hf samples samples'
    | some e => exact nomatch hseries'
  · exact ⟨nofun, fun e' he' => he'⟩

/-- The points of more samples go on from those of the first. -/
theorem goesOn_ofSamples {α β : Type} (samples later : List (Sample α β)) :
    (Series.ofSamples (samples ++ later)).GoesOn (Series.ofSamples samples) :=
  Series.goesOn_of_pairs ((List.prefix_append samples later).map _)

/-! ## Rows that repeat a timestamp -/

/-- Rows behind others are split as ever, with some more timestamps seen. -/
theorem splitRepeated_append (seen : List Binary64) (samples later : List (Sample Binary64 Int64)) :
    ∃ seen', splitRepeated seen (samples ++ later) =
      ((splitRepeated seen samples).1 ++ (splitRepeated seen' later).1,
        (splitRepeated seen samples).2 ++ (splitRepeated seen' later).2) := by
  induction samples generalizing seen with
  | nil => exact ⟨seen, rfl⟩
  | cons sample samples ih =>
    simp only [List.cons_append, splitRepeated]
    cases timestampKey? sample.x with
    | none =>
      obtain ⟨seen', h⟩ := ih seen
      exact ⟨seen', by simp [h]⟩
    | some key =>
      by_cases hkey : key ∈ seen
      · obtain ⟨seen', h⟩ := ih seen
        exact ⟨seen', by simp [h, hkey]⟩
      · obtain ⟨seen', h⟩ := ih (key :: seen)
        exact ⟨seen', by simp [h, hkey]⟩

/-- The points that are kept of more samples go on from those that are kept of the first. -/
theorem goesOn_ofSamples_splitRepeated (samples later : List (Sample Binary64 Int64)) :
    (Series.ofSamples (splitRepeated [] (samples ++ later)).1).GoesOn (Series.ofSamples (splitRepeated [] samples).1) := by
  obtain ⟨seen', h⟩ := splitRepeated_append [] samples later
  rw [h]
  exact goesOn_ofSamples _ _

/-- A row of the first part repeats a timestamp exactly if it does so there. -/
theorem repeats_append_left (rows more : List (Binary64 × Int64)) (row : Binary64 × Int64) {i : Nat} (h : i ≤ rows.length) :
    Repeats (rows ++ more) row i ↔ Repeats rows row i := by
  rw [Repeats, Repeats, List.take_append_of_le_length h]

/-- A row of the second part repeats a timestamp of that part or one of the first. -/
theorem repeats_append_right (rows more : List (Binary64 × Int64)) (row : Binary64 × Int64) (i : Nat) :
    Repeats (rows ++ more) row (rows.length + i) ↔
      Repeats more row i ∨ ∃ earlier ∈ rows, earlier.1.Equal row.1 := by
  rw [Repeats, Repeats, List.take_length_add_append]
  simp only [List.mem_append, or_and_right, exists_or]
  exact or_comm

/-- Of rows behind others those are kept whose timestamps are new. -/
theorem firstRows_append (rows more : List (Binary64 × Int64)) :
    (firstRows (rows ++ more)).map Prod.fst = (firstRows rows).map Prod.fst ++ (newRows rows more).map Prod.fst := by
  have hleft : ((rows.zipIdx).filter fun (row, i) => ¬ Repeats (rows ++ more) row i) = firstRows rows := by
    refine List.filter_congr fun (row, i) hmem => ?_
    have hi : i < rows.length := (List.mem_zipIdx' hmem).1
    simp [repeats_append_left rows more row hi.le]
  have hright : ((more.zipIdx rows.length).filter fun (row, i) => ¬ Repeats (rows ++ more) row i).map Prod.fst =
      (newRows rows more).map Prod.fst := by
    rw [List.zipIdx_eq_map_add, List.filter_map, List.map_map, newRows]
    refine congrArg (List.map Prod.fst) (List.filter_congr fun (row, i) _ => ?_)
    change decide (¬ Repeats (rows ++ more) row (rows.length + i)) = decide (¬ _ ∧ ¬ _)
    rw [decide_eq_decide, repeats_append_right, not_or]
  rw [firstRows, List.zipIdx_append, List.filter_append, List.map_append, Nat.zero_add, hleft, hright]

/-! ## Whole logs -/

/-- A throughput log whose lines are in order keeps the rows of its data that repeat no timestamp. -/
theorem parseThroughput_of_linesOk (file : String) {script : Script} {bytes : List UInt8} {rows : List (Binary64 × Int64)}
    (h : script.content = .ok bytes) (hok : throughputColumns.LinesOk (Text.lines bytes))
    (hrows : List.Forall₂ (fun line row => throughputColumns.Holds line row.1 row.2) (Text.lines bytes).tail rows) :
    (parseThroughput file script).1 = .ok ⟨(firstRows rows).map Prod.fst⟩ := by
  have hheader : ∀ header ∈ (Text.lines bytes).head?, ∃ text, Text.ofUtf8? header = some text := by
    intro header hmem
    rw [List.head?_eq_getElem?] at hmem
    simpa [Columns.LineOk] using hok 0 header hmem
  rw [parseThroughput_of_content h, throughputColumns.scanLines_of_holds file hheader hrows]
  simp only [splitRepeated_samplesFrom_two, Scan.result, Except.map, Series.ofSamples, List.map_map]
  rfl

/-- A throughput log that has grown and is read to its end: of the added rows those with new timestamps are kept. -/
theorem parseThroughput_of_grown (file : String) {script script' : Script} {bytes more : List UInt8}
    (h : script.content = .ok bytes) (h' : script'.content = .ok (bytes ++ more))
    (hended : bytes = [] ∨ bytes.getLast? = some Text.newline) {series' : ThroughputSeries}
    (hok : (parseThroughput file script').1 = .ok series') :
    ∃ rows added, List.Forall₂ (fun line row => throughputColumns.Holds line row.1 row.2) (Text.lines bytes).tail rows ∧
      List.Forall₂ (fun line row => throughputColumns.Holds line row.1 row.2) (addedData bytes more) added ∧
      (parseThroughput file script).1 = .ok ⟨(firstRows rows).map Prod.fst⟩ ∧
      series'.pairs = (firstRows rows).map Prod.fst ++ (newRows rows added).map Prod.fst := by
  have hdecides : throughputColumns.Decides file _ _ := decides_parseThroughput h'
  have hlines : throughputColumns.LinesOk (Text.lines (bytes ++ more)) := hdecides.accepted.mp ⟨series', hok⟩
  obtain ⟨all, hall, -⟩ := throughputColumns.scanLines_of_linesOk file hlines
  have hseries' := parseThroughput_of_linesOk file h' hlines hall
  rw [tail_lines_append hended] at hall
  -- the rows are parted where the lines are
  have hrows := List.Forall₂.flip (List.forall₂_take_append all _ _ hall.flip)
  have hadded := List.Forall₂.flip (List.forall₂_drop_append all _ _ hall.flip)
  have hlinesBefore : throughputColumns.LinesOk (Text.lines bytes) := by
    intro i line hline
    refine hlines i line ?_
    rw [lines_append hended, List.getElem?_append_left (List.getElem?_eq_some_iff.mp hline).1, hline]
  refine ⟨_, _, hrows, hadded, parseThroughput_of_linesOk file h hlinesBefore hrows, ?_⟩
  rw [hok] at hseries'
  injection hseries' with hseries'
  rw [hseries', ← firstRows_append, List.take_append_drop]

/-- A log that is read when it ends with an ended line, and again when bytes were added to it, has grown: whatever was read of it
stays the first part of its series, and if it could not be read, it is not read later either, for the same reason. Of the rows
that were added to a throughput log exactly those are kept whose timestamps are new. -/
theorem grown_log_goes_on (file : String) {script script' : Script} {bytes more : List UInt8} (h : script.content = .ok bytes)
    (h' : script'.content = .ok (bytes ++ more)) (hended : bytes = [] ∨ bytes.getLast? = some Text.newline) :
    Grown (parseAdaptation file script) (parseAdaptation file script') ∧
      Grown (parseBuffer file script) (parseBuffer file script') ∧
      Grown (parseThroughput file script).1 (parseThroughput file script').1 ∧
      ∀ series', (parseThroughput file script').1 = .ok series' → ∃ rows added,
        List.Forall₂ (fun line row => throughputColumns.Holds line row.1 row.2) (Text.lines bytes).tail rows ∧
        List.Forall₂ (fun line row => throughputColumns.Holds line row.1 row.2) (addedData bytes more) added ∧
        (parseThroughput file script).1 = .ok ⟨(firstRows rows).map Prod.fst⟩ ∧
        series'.pairs = (firstRows rows).map Prod.fst ++ (newRows rows added).map Prod.fst := by
  refine ⟨?_, ?_, ?_, fun series' hok => parseThroughput_of_grown file h h' hended hok⟩
  · obtain ⟨later, hlater⟩ := adaptationColumns.scanLines_append file (Text.lines bytes) (Text.lines more)
    rw [parseAdaptation_of_content h, parseAdaptation_of_content h', lines_append hended, hlater]
    exact grown_andThen goesOn_ofSamples _ later
  · obtain ⟨later, hlater⟩ := bufferColumns.scanLines_append file (Text.lines bytes) (Text.lines more)
    rw [parseBuffer_of_content h, parseBuffer_of_content h', lines_append hended, hlater]
    exact grown_andThen goesOn_ofSamples _ later
  · obtain ⟨later, hlater⟩ := throughputColumns.scanLines_append file (Text.lines bytes) (Text.lines more)
    rw [parseThroughput_of_content h, parseThroughput_of_content h', lines_append hended, hlater]
    have hkept := fun scan : Scan Binary64 Int64 =>
      scan.result_map_samples fun samples => Series.ofSamples (splitRepeated [] samples).1
    rw [hkept, hkept]
    exact grown_andThen goesOn_ofSamples_splitRepeated _ later

/-- Two rows are added to a log, the first of which repeats the timestamp of an earlier row in the form of the other zero. -/
theorem zero_added_behind_negative_zero :
    Script.content [.bytes (Text.utf8 "h\n1 2\n-0 3\n")] = .ok (Text.utf8 "h\n1 2\n-0 3\n") ∧
      Script.content [.bytes (Text.utf8 "h\n1 2\n-0 3\n0 5"), .bytes (Text.utf8 "\n2 6")] =
        .ok (Text.utf8 "h\n1 2\n-0 3\n" ++ Text.utf8 "0 5\n2 6") ∧
      (parseThroughput "log" [.bytes (Text.utf8 "h\n1 2\n-0 3\n0 5"), .bytes (Text.utf8 "\n2 6")]).1 =
        .ok ⟨[(1, 2), (.ofRank .double true 0, 3), (2, 6)]⟩ ∧
      ∃ series, (parseThroughput "log" [.bytes (Text.utf8 "h\n1 2\n-0 3\n")]).1 = .ok series ∧
        (⟨[(1, 2), (.ofRank .double true 0, 3), (2, 6)]⟩ : ThroughputSeries).GoesOn series := by
  have hbefore : Script.content [.bytes (Text.utf8 "h\n1 2\n-0 3\n")] = .ok (Text.utf8 "h\n1 2\n-0 3\n") := by
    decide +kernel
  have hafter : Script.content [.bytes (Text.utf8 "h\n1 2\n-0 3\n0 5"), .bytes (Text.utf8 "\n2 6")] =
      .ok (Text.utf8 "h\n1 2\n-0 3\n" ++ Text.utf8 "0 5\n2 6") := by decide +kernel
  have hread : (parseThroughput "log" [.bytes (Text.utf8 "h\n1 2\n-0 3\n0 5"), .bytes (Text.utf8 "\n2 6")]).1 =
      .ok ⟨[(1, 2), (.ofRank .double true 0, 3), (2, 6)]⟩ := by decide +kernel
  obtain ⟨-, -, hgrown, -⟩ := grown_log_goes_on "log" hbefore hafter (Or.inr (by decide +kernel))
  exact ⟨hbefore, hafter, hread, hgrown.ok _ hread⟩

end StreamCharts
