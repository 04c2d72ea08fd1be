import StreamCharts.Chart.Figure
import StreamCharts.Proofs.Binary.Bits
import StreamCharts.Proofs.Binary.Closest
import StreamCharts.Proofs.Log.Arrival
import StreamCharts.Proofs.Log.Growth

/-!
# From the rows of a log to the points of a plot

A series is collected point by point. If its first and second coordinates are kept in two lists, each point is appended to both, so
the lists stay of one length (`Coordinates.Aligned.pushAll`), and paired again they give the points of the series, all of them and
in their order (`Coordinates.pushAll_empty`). On an axis a number stands at itself, and an integer at the nearest number
(`toAxis_isNearest`). The main statement is `plots_show_rows_of_logs`: each plot of a scenario shows the rows of its own log.
-/

namespace StreamCharts

/-! ## Coordinates in two lists -/

/-- Coordinates that are kept apart: the first ones, and the second ones. -/
structure Coordinates (α β : Type) where
  firsts : List α
  seconds : List β

namespace Coordinates

variable {α β : Type}

/-- No coordinates. -/
def empty : Coordinates α β :=
  ⟨[], []⟩

/-- The coordinates with those of one more point, each behind the others of its list. -/
def push (c : Coordinates α β) (x : α) (y : β) : Coordinates α β :=
  ⟨c.firsts ++ [x], c.seconds ++ [y]⟩

/-- The coordinates with those of more points, one after another. -/
def pushAll (c : Coordinates α β) (rows : List (α × β)) : Coordinates α β :=
  rows.foldl (fun c row => c.push row.1 row.2) c

/-- Every first coordinate has a second one. -/
def Aligned (c : Coordinates α β) : Prop :=
  c.firsts.length = c.seconds.length

/-- The points of coordinates as places on the two axes: as many as both lists can fill. -/
def points [AxisValue α] [AxisValue β] (c : Coordinates α β) : List (Binary64 × Binary64) :=
  (c.firsts.zip c.seconds).map fun pair => (AxisValue.toAxis pair.1, AxisValue.toAxis pair.2)

/-- Without points there is nothing to align. -/
theorem aligned_empty : (empty : Coordinates α β).Aligned :=
  rfl

/-- One more point leaves coordinates aligned. -/
theorem Aligned.push {c : Coordinates α β} (h : c.Aligned) (x : α) (y : β) : (c.push x y).Aligned := by
  unfold Aligned at h ⊢
  simp only [Coordinates.push, List.length_append, List.length_singleton, h]

/-- So do more points, whatever they are. -/
theorem Aligned.pushAll {c : Coordinates α β} (h : c.Aligned) (rows : List (α × β)) : (c.pushAll rows).Aligned := by
  induction rows generalizing c with
  | nil => exact h
  | cons row rows ih => exact ih (h.push row.1 row.2)

/-- More points extend both lists by their coordinates. -/
theorem pushAll_eq (c : Coordinates α β) (rows : List (α × β)) :
    c.pushAll rows = ⟨c.firsts ++ rows.map Prod.fst, c.seconds ++ rows.map Prod.snd⟩ := by
  induction rows generalizing c with
  | nil => simp [pushAll]
  | cons row rows ih =>
    rw [pushAll, List.foldl_cons, ← pushAll, ih]
    simp [push]

/-- Aligned coordinates are paired without loss. -/
theorem Aligned.length_points [AxisValue α] [AxisValue β] {c : Coordinates α β} (h : c.Aligned) :
    c.points.length = c.firsts.length := by
  unfold Aligned at h
  simp [points, List.length_zip, h]

end Coordinates

namespace Series

variable {α β : Type}

/-- The series with more points, one after another. -/
def pushAll (s : Series α β) (rows : List (α × β)) : Series α β :=
  rows.foldl (fun s row => s.push row.1 row.2) s

/-- Points that are collected are the pairs of the series. -/
theorem pairs_pushAll (s : Series α β) (rows : List (α × β)) : (s.pushAll rows).pairs = s.pairs ++ rows := by
  induction rows generalizing s with
  | nil => simp [pushAll]
  | cons row rows ih =>
    rw [pushAll, List.foldl_cons, ← pushAll, ih]
    simp [push]

/-- A series is collected from its pairs. -/
theorem pushAll_empty (rows : List (α × β)) : empty.pushAll rows = ⟨rows⟩ := by
  have hpairs : (empty.pushAll rows).pairs = rows := pairs_pushAll empty rows
  exact congrArg Series.mk hpairs

/-- The points of a series show it: there is one for each row, in the order of the rows, at the places of its own coordinates. -/
structure ShownBy [AxisValue α] [AxisValue β] (s : Series α β) (points : List (Binary64 × Binary64)) : Prop where
  length_xs : points.length = s.xs.length
  length_ys : points.length = s.ys.length
  point : ∀ (i : Nat) (x : α) (y : β), s.xs[i]? = some x → s.ys[i]? = some y →
    points[i]? = some (AxisValue.toAxis x, AxisValue.toAxis y)

/-- A series is shown by its points. -/
theorem shownBy_points [AxisValue α] [AxisValue β] (s : Series α β) : s.ShownBy s.points := by
  refine ⟨by simp [points, xs], by simp [points, ys], fun i x y hx hy => ?_⟩
  simp only [xs, ys, List.getElem?_map, Option.map_eq_some_iff] at hx hy
  obtain ⟨row, hrow, rfl⟩ := hx
  obtain ⟨row', hrow', rfl⟩ := hy
  obtain rfl : row = row' := Option.some.inj (hrow.symm.trans hrow')
  rw [points, List.getElem?_map, hrow, Option.map_some]

end Series

/-- Coordinates that are kept apart are those of the series with the same points, and so are the places on the two axes. -/
theorem Coordinates.pushAll_empty {α β : Type} [AxisValue α] [AxisValue β] (rows : List (α × β)) :
    (empty.pushAll rows).firsts = (⟨rows⟩ : Series α β).xs ∧ (empty.pushAll rows).seconds = (⟨rows⟩ : Series α β).ys ∧
      (empty.pushAll rows).points = (⟨rows⟩ : Series α β).points := by
  have hzip : rows = (rows.map Prod.fst).zip (rows.map Prod.snd) := List.zip_of_prod rfl rfl
  rw [points, pushAll_eq]
  exact ⟨rfl, rfl, congrArg (List.map _) hzip.symm⟩

/-! ## Places on an axis -/

/-- An integer of 64 bits stands at the nearest number. -/
theorem toAxis_isNearest (n : Int64) : (AxisValue.toAxis n).IsNearest n.toInt := by
  have hmin : -2 ^ 63 ≤ n.toInt := n.minValue_le_toInt
  have hmax : n.toInt ≤ 2 ^ 63 - 1 := n.toInt_le
  have hsize : |(n.toInt : ℚ)| ≤ 2 ^ (63 : ℤ) := by
    have habs : |n.toInt| ≤ 2 ^ 63 := abs_le.mpr ⟨hmin, by omega⟩
    exact_mod_cast habs
  exact Binary.round_isNearest (by decide) false (Format.fits_of_le_two_zpow (by decide) hsize)

/-! ## Logs that are read -/

section Rows

variable {file : String} {script : Script}

/-- The reader of a log that is read does not fail before the end, as it would break off the result. -/
theorem content_of_ok {γ : Type} {result : Except LogError γ} {series : γ} (h : result = .ok series)
    (hbroken : ∀ fault, script.failure? = some fault → ∃ line before, result = brokenOff file line fault before) :
    script.content = .ok script.delivered := by
  rw [Script.content_eq_ok_iff]
  refine ⟨Option.eq_none_iff_forall_ne_some.mpr fun fault hfault => ?_, rfl⟩
  obtain ⟨line, before, hresult⟩ := hbroken fault hfault
  exact brokenOff_ne_ok _ _ _ _ _ (hresult.symm.trans h)

/-- The series of an adaptation log holds the rows of all its lines of data. -/
theorem rows_of_parseAdaptation {series : AdaptationSeries} (h : parseAdaptation file script = .ok series) :
    List.Forall₂ (fun line row => adaptationColumns.Holds line row.1 row.2) (Text.lines script.delivered).tail series.pairs := by
  have hcontent : script.content = .ok script.delivered :=
    content_of_ok h fun fault hfault => ⟨_, _, (logs_of_broken file hfault).1⟩
  rw [parseAdaptation_of_content hcontent] at h
  exact adaptationColumns.forall₂_holds_of_ok (by decide) h

/-- The series of a buffer log holds the rows of all its lines of data. -/
theorem rows_of_parseBuffer {series : BufferSeries} (h : parseBuffer file script = .ok series) :
    List.Forall₂ (fun line row => bufferColumns.Holds line row.1 row.2) (Text.lines script.delivered).tail series.pairs := by
  have hcontent : script.content = .ok script.delivered :=
    content_of_ok h fun fault hfault => ⟨_, _, (logs_of_broken file hfault).2.1⟩
  rw [parseBuffer_of_content hcontent] at h
  exact bufferColumns.forall₂_holds_of_ok (by decide) h

/-- The series of a throughput log holds those rows of its lines of data that repeat no timestamp. -/
theorem rows_of_parseThroughput {series : ThroughputSeries} (h : (parseThroughput file script).1 = .ok series) :
    ∃ rows, List.Forall₂ (fun line row => throughputColumns.Holds line row.1 row.2) (Text.lines script.delivered).tail rows ∧
      series.pairs = (firstRows rows).map Prod.fst := by
  have hcontent : script.content = .ok script.delivered :=
    content_of_ok h fun fault hfault => ⟨_, _, congrArg Prod.fst (logs_of_broken file hfault).2.2⟩
  have hok : throughputColumns.LinesOk (Text.lines script.delivered) :=
    (decides_parseThroughput hcontent).accepted.mp ⟨series, h⟩
  obtain ⟨rows, hrows, -⟩ := throughputColumns.scanLines_of_linesOk file hok
  rw [parseThroughput_of_linesOk file hcontent hok hrows] at h
  cases h
  exact ⟨rows, hrows, rfl⟩

end Rows

/-- If three logs are read, the figure has three plots, of the adaptation, the buffer and the throughput, in this order. Each shows
the series of its own log: it has as many points as there are first coordinates, and as there are second ones, and point `i` is at
the places of the `i`-th of both. A number stands at itself, bit for bit, be it finite or not, and numbers are told apart by their
bits, also NaNs by their signs; an integer stands at the nearest number. The rows of the first two series are those of all lines of
data, in their order; those of the third are the ones that repeat no timestamp. All this would be the same with the coordinates in
two lists of their own: whatever points are collected, these lists have one length, and no point is lost when they are paired. -/
theorem plots_show_rows_of_logs {fileA fileB fileT : String} {scriptA scriptB scriptT : Script} {a : AdaptationSeries}
    {b : BufferSeries} {t : ThroughputSeries} (ha : parseAdaptation fileA scriptA = .ok a) (hb : parseBuffer fileB scriptB = .ok b)
    (ht : (parseThroughput fileT scriptT).1 = .ok t) :
    (∃ p q r, figure ⟨a, b, t⟩ = [p, q, r] ∧ [p.id, q.id, r.id] = ["adaptation_plot", "buffer_plot", "throughput_plot"] ∧
      a.ShownBy p.points ∧ b.ShownBy q.points ∧ t.ShownBy r.points) ∧
    ((∀ x : Binary64, AxisValue.toAxis x = x ∧ (AxisValue.toAxis x).toBits = x.toBits) ∧
      (∀ x y : Binary64, x.toBits = y.toBits ↔ x = y) ∧ ∀ n : Int64, (AxisValue.toAxis n).IsNearest n.toInt) ∧
    (List.Forall₂ (fun line row => adaptationColumns.Holds line row.1 row.2) (Text.lines scriptA.delivered).tail a.pairs ∧
      List.Forall₂ (fun line row => bufferColumns.Holds line row.1 row.2) (Text.lines scriptB.delivered).tail b.pairs ∧
      ∃ rows, List.Forall₂ (fun line row => throughputColumns.Holds line row.1 row.2) (Text.lines scriptT.delivered).tail rows ∧
        t.pairs = (firstRows rows).map Prod.fst) ∧
    ∀ (α β : Type) [AxisValue α] [AxisValue β] (rows : List (α × β)),
      Series.empty.pushAll rows = ⟨rows⟩ ∧ (Coordinates.empty.pushAll rows).Aligned ∧
        (Coordinates.empty.pushAll rows).points.length = rows.length ∧
        (Coordinates.empty.pushAll rows).firsts = (⟨rows⟩ : Series α β).xs ∧
        (Coordinates.empty.pushAll rows).seconds = (⟨rows⟩ : Series α β).ys ∧
        (Coordinates.empty.pushAll rows).points = (⟨rows⟩ : Series α β).points := by
  refine ⟨⟨_, _, _, rfl, rfl, a.shownBy_points, b.shownBy_points, t.shownBy_points⟩,
    ⟨fun _ => ⟨rfl, rfl⟩, fun _ _ => (Binary.toBits_injective (by decide)).eq_iff, toAxis_isNearest⟩,
    ⟨rows_of_parseAdaptation ha, rows_of_parseBuffer hb, rows_of_parseThroughput ht⟩, fun α β _ _ rows => ?_⟩
  have haligned := Coordinates.aligned_empty.pushAll rows
  have hsame := Coordinates.pushAll_empty rows
  have hlength : (Coordinates.empty.pushAll rows).points.length = rows.length := by
    rw [haligned.length_points, hsame.1, Series.xs, List.length_map]
  exact ⟨Series.pushAll_empty rows, haligned, hlength, hsame⟩

/-- An integer in the middle between two numbers, numbers that are not finite, NaN with both signs, a repeated row and a repeated
timestamp. -/
theorem points_of_unusual_rows :
    ∃ a b t, parseAdaptation "a" [.bytes (Text.utf8 "h\n9007199254740993 -1 x y z\n")] = .ok a ∧
      parseBuffer "b" [.bytes (Text.utf8 "h\n-nan -inf\nnan 0\n1 -0\n1 -0\n")] = .ok b ∧
      (parseThroughput "t" [.bytes (Text.utf8 "h\n-0 1\n0 2\n2 3\n")]).1 = .ok t ∧
      (figure ⟨a, b, t⟩).map (·.points) =
        [[(9007199254740992, -1)], [(.nan true, .infinite true), (.nan false, 0), (1, -0), (1, -0)], [(-0, 1), (2, 3)]] ∧
      a.ShownBy [(9007199254740992, -1)] ∧
      b.ShownBy [(.nan true, .infinite true), (.nan false, 0), (1, -0), (1, -0)] ∧
      t.ShownBy [(-0, 1), (2, 3)] := by
  have ha : parseAdaptation "a" [.bytes (Text.utf8 "h\n9007199254740993 -1 x y z\n")] = .ok ⟨[(9007199254740993, -1)]⟩ := by
    decide +kernel
  have hb : parseBuffer "b" [.bytes (Text.utf8 "h\n-nan -inf\nnan 0\n1 -0\n1 -0\n")] =
      .ok ⟨[(.nan true, .infinite true), (.nan false, 0), (1, -0), (1, -0)]⟩ := by decide +kernel
  have ht : (parseThroughput "t" [.bytes (Text.utf8 "h\n-0 1\n0 2\n2 3\n")]).1 = .ok ⟨[(-0, 1), (2, 3)]⟩ := by decide +kernel
  have hfigure : (figure ⟨⟨[(9007199254740993, -1)]⟩, ⟨[(.nan true, .infinite true), (.nan false, 0), (1, -0), (1, -0)]⟩,
      ⟨[(-0, 1), (2, 3)]⟩⟩).map (·.points) =
        [[(9007199254740992, -1)], [(.nan true, .infinite true), (.nan false, 0), (1, -0), (1, -0)], [(-0, 1), (2, 3)]] := by
    decide +kernel
  obtain ⟨⟨p, q, r, hplots, -, hshown⟩, -⟩ := plots_show_rows_of_logs ha hb ht
  refine ⟨_, _, _, ha, hb, ht, hfigure, ?_⟩
  rw [hplots] at hfigure
  simp only [List.map_cons, List.map_nil, List.cons.injEq, and_true] at hfigure
  obtain ⟨hp, hq, hr⟩ := hfigure
  rwa [hp, hq, hr] at hshown

end StreamCharts
