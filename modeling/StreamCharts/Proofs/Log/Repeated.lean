import StreamCharts.Proofs.Binary.Bits
import StreamCharts.Proofs.Binary.Equality
import StreamCharts.Proofs.Log.Verdict

/-!
# Rows that repeat a timestamp

A row of a throughput log repeats a timestamp if an earlier row has an equal one (`Repeats`). The keys that are collected on the
way are those of all rows so far (`KeysOf`), also of the repeating ones, so that a row is dropped exactly if it repeats a
timestamp; a row with NaN repeats none. The main statement is `throughput_keeps_first_of_equal_timestamps`.
-/

namespace StreamCharts

/-- The row with index `i` (from 0) repeats a timestamp: that of an earlier row equals its own. -/
def Repeats (rows : List (Binary64 × Int64)) (row : Binary64 × Int64) (i : Nat) : Prop :=
  ∃ earlier ∈ rows.take i, earlier.1.Equal row.1

instance (rows : List (Binary64 × Int64)) (row : Binary64 × Int64) (i : Nat) : Decidable (Repeats rows row i) :=
  inferInstanceAs (Decidable (∃ earlier ∈ rows.take i, earlier.1.Equal row.1))

/-- The rows with their indices that repeat no timestamp. -/
def firstRows (rows : List (Binary64 × Int64)) : List ((Binary64 × Int64) × Nat) :=
  rows.zipIdx.filter fun (row, i) => ¬ Repeats rows row i

/-- The rows with their indices that repeat a timestamp. -/
def repeatingRows (rows : List (Binary64 × Int64)) : List ((Binary64 × Int64) × Nat) :=
  rows.zipIdx.filter fun (row, i) => Repeats rows row i

/-- The sample of a row: the data begin on line 2. -/
def rowSample (row : (Binary64 × Int64) × Nat) : Sample Binary64 Int64 :=
  ⟨row.2 + 2, row.1.1, row.1.2⟩

/-! ## The keys that were seen -/

/-- The keys that were seen are those of the rows so far. -/
def KeysOf (before : List (Binary64 × Int64)) (seen : List Binary64) : Prop :=
  ∀ key, key ∈ seen ↔ ∃ row ∈ before, timestampKey? row.1 = some key

/-- Before the first row no key was seen. -/
theorem keysOf_nil : KeysOf [] [] := by
  simp [KeysOf]

/-- A row adds its key, if it has one. -/
theorem KeysOf.append {before : List (Binary64 × Int64)} {seen : List Binary64} (h : KeysOf before seen)
    (row : Binary64 × Int64) {seen' : List Binary64} (hseen' : ∀ key, key ∈ seen' ↔ key ∈ seen ∨ timestampKey? row.1 = some key) :
    KeysOf (before ++ [row]) seen' := by
  intro key
  rw [hseen', h key]
  simp [or_and_right, exists_or]

/-- A row repeats a timestamp exactly if it has a key and the key was seen. -/
theorem KeysOf.repeats_iff {before : List (Binary64 × Int64)} {seen : List Binary64} (h : KeysOf before seen)
    (row : Binary64 × Int64) (rest : List (Binary64 × Int64)) :
    Repeats (before ++ row :: rest) row before.length ↔ ∃ key ∈ seen, timestampKey? row.1 = some key := by
  rw [Repeats, List.take_left]
  constructor
  · rintro ⟨earlier, hearlier, hequal⟩
    obtain ⟨key, hkey, hrow⟩ := (timestampKey?_eq_iff _ _).mpr hequal
    exact ⟨key, (h key).mpr ⟨earlier, hearlier, hkey⟩, hrow⟩
  · rintro ⟨key, hseen, hrow⟩
    obtain ⟨earlier, hearlier, hkey⟩ := (h key).mp hseen
    exact ⟨earlier, hearlier, (timestampKey?_eq_iff _ _).mp ⟨key, hkey, hrow⟩⟩

/-! ## The split -/

/-- One step of the split: the sample of a row is dropped if the row repeats a timestamp, and kept otherwise, and behind it the
keys that were seen are again those of the rows so far. -/
theorem splitRepeated_step {before : List (Binary64 × Int64)} {seen : List Binary64} (h : KeysOf before seen)
    (row : Binary64 × Int64) (rest : List (Binary64 × Int64)) (samples : List (Sample Binary64 Int64)) :
    ∃ seen', KeysOf (before ++ [row]) seen' ∧ splitRepeated seen (rowSample (row, before.length) :: samples) =
      if Repeats (before ++ row :: rest) row before.length then
        ((splitRepeated seen' samples).1, rowSample (row, before.length) :: (splitRepeated seen' samples).2)
      else (rowSample (row, before.length) :: (splitRepeated seen' samples).1, (splitRepeated seen' samples).2) := by
  have hrepeats := h.repeats_iff row rest
  have hx : (rowSample (row, before.length)).x = row.1 := rfl
  cases hkey : timestampKey? row.1 with
  | none =>
    have hfirst : ¬ Repeats (before ++ row :: rest) row before.length := by
      rw [hrepeats]
      rintro ⟨key, -, hkey'⟩
      exact nomatch hkey.symm.trans hkey'
    refine ⟨seen, h.append row (by simp [hkey]), ?_⟩
    rw [if_neg hfirst, splitRepeated, hx, hkey]
  | some key =>
    by_cases hseen : key ∈ seen
    · have hrepeat : Repeats (before ++ row :: rest) row before.length := hrepeats.mpr ⟨key, hseen, hkey⟩
      refine ⟨seen, h.append row fun key' => ?_, ?_⟩
      · rw [hkey, Option.some.injEq]
        exact ⟨Or.inl, fun hkey' => hkey'.elim id fun heq => heq ▸ hseen⟩
      · rw [if_pos hrepeat, splitRepeated, hx, hkey]
        exact if_pos (List.contains_iff_mem.mpr hseen)
    · have hfirst : ¬ Repeats (before ++ row :: rest) row before.length := by
        rw [hrepeats]
        rintro ⟨key', hseen', hkey'⟩
        exact hseen (Option.some.inj (hkey.symm.trans hkey') ▸ hseen')
      refine ⟨key :: seen, h.append row fun key' => ?_, ?_⟩
      · rw [hkey, Option.some.injEq, List.mem_cons, or_comm, eq_comm]
      · rw [if_neg hfirst, splitRepeated, hx, hkey]
        exact if_neg fun hmem => hseen (List.contains_iff_mem.mp hmem)

/-- Samples are split by whether their rows repeat a timestamp, if the keys of the rows before them were seen. -/
theorem splitRepeated_of_keysOf (rest before : List (Binary64 × Int64)) (seen : List Binary64) (h : KeysOf before seen) :
    splitRepeated seen ((rest.zipIdx before.length).map rowSample) =
      (((rest.zipIdx before.length).filter fun (row, i) => ¬ Repeats (before ++ rest) row i).map rowSample,
        ((rest.zipIdx before.length).filter fun (row, i) => Repeats (before ++ rest) row i).map rowSample) := by
  induction rest generalizing before seen with
  | nil => rfl
  | cons row rest ih =>
    obtain ⟨seen', hseen', hstep⟩ := splitRepeated_step h row rest ((rest.zipIdx (before.length + 1)).map rowSample)
    have hnext := ih (before ++ [row]) seen' hseen'
    rw [List.length_append, List.length_singleton, List.append_assoc, List.singleton_append] at hnext
    rw [List.zipIdx_cons, List.map_cons, hstep, hnext]
    split
    · rename_i hrepeat
      simp [hrepeat]
    · rename_i hfirst
      simp [hfirst]

/-- The samples of rows stand on the lines from 2 on. -/
theorem samplesFrom_two (rows : List (Binary64 × Int64)) : Columns.samplesFrom 2 rows = rows.zipIdx.map rowSample := by
  rw [Columns.samplesFrom, List.zipIdx_eq_map_add, List.map_map]
  refine List.map_congr_left fun row _ => ?_
  simp [rowSample, Nat.add_comm]

/-- The samples of a log are split by whether their rows repeat a timestamp. -/
theorem splitRepeated_samplesFrom_two (rows : List (Binary64 × Int64)) :
    splitRepeated [] (Columns.samplesFrom 2 rows) =
      ((firstRows rows).map rowSample, (repeatingRows rows).map rowSample) := by
  rw [samplesFrom_two]
  exact splitRepeated_of_keysOf rows [] [] keysOf_nil

/-- Each row either is the first with its timestamp or repeats it. -/
theorem length_firstRows_add_repeatingRows (rows : List (Binary64 × Int64)) :
    (firstRows rows).length + (repeatingRows rows).length = rows.length := by
  have h := List.length_eq_length_filter_add (l := rows.zipIdx) fun (row, i) => decide (Repeats rows row i)
  rw [List.length_zipIdx] at h
  rw [h, firstRows, repeatingRows, Nat.add_comm]
  simp

/-- The rows that repeat a timestamp come in their order, each once. -/
theorem repeatingRows_ordered (rows : List (Binary64 × Int64)) : ((repeatingRows rows).map Prod.snd).Pairwise (· < ·) := by
  have hall : (rows.zipIdx.map Prod.snd).Pairwise (· < ·) := by
    rw [List.zipIdx_map_snd, List.range'_eq_map_range]
    simpa using List.pairwise_lt_range
  exact hall.sublist (List.filter_sublist.map Prod.snd)

/-- A row with NaN repeats no timestamp. -/
theorem mem_firstRows_of_isNaN {rows : List (Binary64 × Int64)} {row : Binary64 × Int64} {i : Nat} (hrow : rows[i]? = some row)
    (hnan : row.1.isNaN = true) : (row, i) ∈ firstRows rows := by
  rw [firstRows, List.mem_filter]
  refine ⟨List.mem_zipIdx_iff_getElem?.mpr hrow, ?_⟩
  have hfirst : ¬ Repeats rows row i := by
    rintro ⟨earlier, -, hequal⟩
    exact Bool.eq_false_iff.mp hequal.isNaN_eq_false.2 hnan
  simpa using hfirst

/-! ## Whole logs -/

/-- A line whose first field is the word for NaN holds NaN with the sign of this word. -/
theorem eq_nan_of_holds {line : List UInt8} {x : Binary64} {y : Int64} (h : throughputColumns.Holds line x y) {text first : String}
    {others : List String} {negative : Bool} (htext : Text.ofUtf8? line = some text) (hfields : Text.Fields text (first :: others))
    (hword : Binary.WordOfNaN first negative) : x = .nan negative := by
  obtain ⟨text', first', second, others', htext', hfields', -, hx, -⟩ := h
  obtain rfl : text = text' := Option.some.inj (htext.symm.trans htext')
  rw [Text.fields_iff] at hfields hfields'
  obtain ⟨rfl, -⟩ := List.cons.inj (hfields.symm.trans hfields')
  exact Option.some.inj (hx.symm.trans ((Binary.ofText?_eq_nan_iff first negative).mpr hword))

/-- A throughput log whose data hold the given rows keeps the rows that repeat no timestamp, and notes the others. -/
theorem parseThroughput_of_holds (file : String) {script : Script} {bytes : List UInt8} {rows : List (Binary64 × Int64)}
    (h : script.content = .ok bytes)
    (hheader : ∀ header ∈ (Text.lines bytes).head?, ∃ text, Text.ofUtf8? header = some text)
    (hrows : List.Forall₂ (fun line row => throughputColumns.Holds line row.1 row.2) (Text.lines bytes).tail rows) :
    parseThroughput file script = (.ok ⟨(firstRows rows).map Prod.fst⟩,
      (repeatingRows rows).map fun (row, i) => repeatedRecord file ⟨i + 2, row.1, row.2⟩) := by
  have hscan : throughputColumns.scanLog file script = ⟨Columns.samplesFrom 2 rows, none⟩ := by
    rw [throughputColumns.scanLog_of_content file h]
    exact throughputColumns.scanLines_of_holds file hheader hrows
  rw [parseThroughput, hscan]
  dsimp only
  rw [splitRepeated_samplesFrom_two]
  simp only [Scan.result, Except.map, Series.ofSamples, List.map_map]
  rfl

/-- A throughput log whose header is text and whose data hold the given rows keeps exactly the rows that repeat no timestamp, as
they are, and notes each of the others, with its line, in their order. The kept timestamps have the bits of their rows. A row whose
timestamp is the word for NaN is kept, however this word is spelled, and its bits have the sign of the word. -/
theorem throughput_keeps_first_of_equal_timestamps (file : String) (script : Script) (bytes : List UInt8)
    (rows : List (Binary64 × Int64)) (h : script.content = .ok bytes)
    (hheader : ∀ header ∈ (Text.lines bytes).head?, ∃ text, Text.ofUtf8? header = some text)
    (hrows : List.Forall₂ (fun line row => throughputColumns.Holds line row.1 row.2) (Text.lines bytes).tail rows) :
    parseThroughput file script = (.ok ⟨(firstRows rows).map Prod.fst⟩,
        (repeatingRows rows).map fun (row, i) => repeatedRecord file ⟨i + 2, row.1, row.2⟩) ∧
      ((repeatingRows rows).map Prod.snd).Pairwise (· < ·) ∧
      (firstRows rows).length + (repeatingRows rows).length = rows.length ∧
      (∀ series, (parseThroughput file script).1 = .ok series →
        series.xs.map Binary.toBits = (firstRows rows).map fun (row, _) => row.1.toBits) ∧
      ∀ i line row, (Text.lines bytes).tail[i]? = some line → rows[i]? = some row →
        ∀ text first others negative, Text.ofUtf8? line = some text → Text.Fields text (first :: others) →
          Binary.WordOfNaN first negative → (row, i) ∈ firstRows rows ∧
            row.1.toBits = if negative then 0xfff8000000000000 else 0x7ff8000000000000 := by
  have hparse := parseThroughput_of_holds file h hheader hrows
  refine ⟨hparse, repeatingRows_ordered rows, length_firstRows_add_repeatingRows rows, fun series hseries => ?_,
    fun i line row hline hrow text first others negative htext hfields hword => ?_⟩
  · rw [hparse] at hseries
    obtain rfl := Except.ok.inj hseries
    rw [Series.xs, List.map_map, List.map_map]
    rfl
  · obtain ⟨hi, rfl⟩ := List.getElem?_eq_some_iff.mp hline
    obtain ⟨hi', rfl⟩ := List.getElem?_eq_some_iff.mp hrow
    have hnan : rows[i].1 = .nan negative := eq_nan_of_holds ((List.forall₂_iff_get.mp hrows).2 i hi hi') htext hfields
      hword
    refine ⟨mem_firstRows_of_isNaN hrow (by rw [hnan]; rfl), ?_⟩
    rw [hnan]
    cases negative <;> rfl

/-- Of the two zeros the first is kept with its sign, and of the two NaNs both, each with its own. -/
theorem negative_zero_kept_before_zero :
    parseThroughput "log" [.bytes (Text.utf8 "h\n-0.0 1\n0 2\nna"), .interruption, .bytes (Text.utf8 "n 3\n-NaN 4\n")] =
        (.ok ⟨[(.ofRank .double true 0, 1), (.nan false, 3), (.nan true, 4)]⟩,
          [repeatedRecord "log" ⟨3, .ofRank .double false 0, 2⟩]) ∧
      [.ofRank .double true 0, .nan false, .nan true].map (Binary.toBits : Binary64 → Nat) =
        [0x8000000000000000, 0x7ff8000000000000, 0xfff8000000000000] := by
  have hholds : ∀ line x y, throughputColumns.judge "log" 2 line = .ok ⟨2, x, y⟩ → throughputColumns.Holds line x y :=
    fun line x y => (throughputColumns.holds_iff_judge (by decide) "log" (by decide) line x y).mpr
  have h := throughput_keeps_first_of_equal_timestamps "log"
    [.bytes (Text.utf8 "h\n-0.0 1\n0 2\nna"), .interruption, .bytes (Text.utf8 "n 3\n-NaN 4\n")]
    (Text.utf8 "h\n-0.0 1\n0 2\nnan 3\n-NaN 4\n")
    [(.ofRank .double true 0, 1), (.ofRank .double false 0, 2), (.nan false, 3), (.nan true, 4)] rfl
    (by
      intro header hheader
      obtain rfl : Text.utf8 "h\n" = header := Option.some.inj hheader
      exact ⟨"h\n", by decide +kernel⟩)
    (by
      refine .cons (hholds _ _ _ ?_) (.cons (hholds _ _ _ ?_) (.cons (hholds _ _ _ ?_) (.cons (hholds _ _ _ ?_) .nil)))
      all_goals decide +kernel)
  exact ⟨h.1.trans (by decide +kernel), by decide +kernel⟩

end StreamCharts
