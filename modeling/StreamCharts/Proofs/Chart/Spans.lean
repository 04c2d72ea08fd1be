import StreamCharts.Proofs.Chart.Step

/-!
# Spans that are very small or very large

A step is to be finite and positive, and so large that the intervals make up the span (`step_suits_span_unless_extreme`). That fails
at both ends of the numbers. A span near the largest number has an infinite step, if it is not divided. A span of which one or two of
the smallest units fall on an interval has a step that vanishes; with a few units more the step is positive, but it is rounded itself
and may be too small. `extreme_spans_without_step` gives an example of each.
-/

namespace StreamCharts

open Format

/-! ## Steps that vanish -/

/-- The multiples of a power of ten that does not vanish are positive. -/
theorem nearest_multiple_pos {m : Binary64} (hm : m ∈ niceMultiples) {d : ℤ} (hlow : -323 ≤ d) (hd : d ≤ 308) :
    0 < double.nearest (m.value * (powerOfTen d).value) := by
  obtain ⟨-, hone, -⟩ := step_constants.1 m hm
  have hpower := Binary.denotes_value (powerOfTen_isFinite hd)
  have hpos := powerOfTen_pos hlow hd
  calc 0 < (powerOfTen d).value := hpos
    _ = double.nearest (powerOfTen d).value := hpower.nearest_eq.symm
    _ ≤ double.nearest (m.value * (powerOfTen d).value) :=
      double.nearest_mono (le_mul_of_one_le_left hpos.le hone)

/-- A finite nice step of a positive number vanishes if the number is one or two of the smallest units, and only then. -/
theorem niceStep_pos_iff {raw : Binary64} {r s : ℚ} (h : raw.Denotes r) (hr : 0 < r)
    (hs : (niceStep raw niceMultiples).Denotes s) : 0 ≤ s ∧ (0 < s ↔ 3 * double.smallest ≤ r) := by
  have hsmallest := double.smallest_pos
  have hd := decadeOf_le_of_lt_limit hr ((le_abs_self r).trans_lt h.abs_lt_limit)
  rcases niceStep_cases (Or.inl rfl) h hr with ⟨-, m, hm, heq, hfits⟩ | ⟨-, hinfinite⟩
  · rw [heq] at hs
    obtain rfl := hs.value.symm.trans (multiple_denotes hm hd hfits).value
    rcases le_or_gt (3 * double.smallest) r with hmore | hfew
    · obtain ⟨-, -, -, -, -, hthree, -⟩ := ten_zpow_bounds
      have hpos := nearest_multiple_pos hm (le_decadeOf (hthree.trans hmore)) hd
      exact ⟨hpos.le, iff_of_true hpos hmore⟩
    · -- a value is a whole number of units, so there are at most two
      obtain ⟨n, rfl⟩ := h.multiple
      have hn : n < 3 := by exact_mod_cast lt_of_mul_lt_mul_right hfew hsmallest.le
      have htwo : n * double.smallest ≤ 2 * double.smallest := by
        refine mul_le_mul_of_nonneg_right ?_ hsmallest.le
        exact_mod_cast Int.le_of_lt_add_one hn
      obtain ⟨-, -, -, -, hunits, -⟩ := ten_zpow_bounds
      have hlow := decadeOf_lt hr (htwo.trans_lt hunits)
      have hnone : double.nearest (m.value * (powerOfTen (decadeOf (n * double.smallest))).value) = 0 := by
        rw [powerOfTen_eq_zero (by omega), mul_zero, nearest_zero]
      rw [hnone]
      exact ⟨le_rfl, iff_of_false (lt_irrefl 0) hfew.not_ge⟩
  · rw [hinfinite] at hs
    exact absurd hs.isFinite Bool.false_ne_true

/-! ## Steps of spans -/

section

variable {limit : ℕ} {span : Binary64} {w : ℚ}

/-- The step of a positive span is finite, or there is only one interval and the span, but for the part that is forgiven, is beyond
the last power of ten. -/
theorem tickStep_finite_or_infinite (hlimit : limit ≤ 2 ^ 64) (h : span.Denotes w) (hw : 0 < w) (whole : Bool) :
    (∃ s, (tickStep span limit whole).Denotes s ∧ (2 < limit ∨ (forgiven span).le 1e308 = true)) ∨
    (tickStep span limit whole = .infinite false ∧ limit ≤ 2 ∧ (forgiven span).le 1e308 = false) := by
  rcases lt_or_ge 2 limit with hmore | hone
  · obtain ⟨s, hs, -⟩ := tickStep_denotes hmore hlimit span whole
    exact Or.inl ⟨s, hs, Or.inl hmore⟩
  have hself := partOf_eq_self hone h
  rcases tickStep_cases hlimit span whole with ⟨-, hnone⟩ | ⟨raw, w', hspan, hraw, -, hstep⟩
  · exact absurd (hself ▸ hnone w h) hw.not_ge
  obtain rfl : w' = w := hspan.value.symm.trans h.value
  obtain rfl : raw = span := by
    rw [hself] at hraw
    rw [hraw.eq_round hw.ne', h.eq_round hw.ne']
  have hd := decadeOf_le_of_lt_limit hw ((le_abs_self w').trans_lt h.abs_lt_limit)
  rw [hstep]
  cases whole with
  | false =>
    rw [if_neg Bool.false_ne_true]
    rcases niceStep_cases (Or.inl rfl) h hw with ⟨hle, m, hm, heq, hfits⟩ | ⟨hbeyond, heq⟩
    · rw [heq]
      exact Or.inl ⟨_, multiple_denotes hm hd hfits, Or.inr hle⟩
    · exact Or.inr ⟨heq, hone, hbeyond⟩
  | true =>
    rw [if_pos rfl]
    rcases niceStep_cases (Or.inr rfl) h hw with ⟨hle, m, hm, heq, hfits⟩ | ⟨hbeyond, heq⟩
    · rw [heq]
      exact Or.inl ⟨_, wholeStep_denotes hm hd hfits, Or.inr hle⟩
    · rw [heq, one_denotes.larger_infinite]
      exact Or.inr ⟨rfl, hone, hbeyond⟩

/-- A finite step of a positive span is positive, if it is whole or if the part of the span on one interval is not one or two of the
smallest units, and only then. -/
theorem tickStep_pos_iff (hlimit : limit ≤ 2 ^ 64) {whole : Bool} (h : span.Denotes w) (hw : 0 < w) {s : ℚ}
    (hs : (tickStep span limit whole).Denotes s) :
    0 ≤ s ∧ (0 < s ↔ whole = true ∨ partOf w limit = 0 ∨ 3 * double.smallest ≤ partOf w limit) := by
  have hsmallest := double.smallest_pos
  have hpart : 0 ≤ partOf w limit := by
    have hcount := (nearest_intervals_bounds limit).1
    exact double.nearest_nonneg (div_nonneg hw.le (by linarith))
  rcases tickStep_cases hlimit span whole with ⟨hone, hnone⟩ | ⟨raw, w', hspan, hraw, hpos, hstep⟩
  · rw [← hs.value, hone, one_denotes.value]
    exact ⟨zero_le_one, iff_of_true one_pos (Or.inr (Or.inl (le_antisymm (hnone w h) hpart)))⟩
  obtain rfl : w' = w := hspan.value.symm.trans h.value
  rw [hstep] at hs
  cases whole with
  | false =>
    rw [if_neg Bool.false_ne_true] at hs
    obtain ⟨hnonneg, hiff⟩ := niceStep_pos_iff hraw hpos hs
    refine ⟨hnonneg, hiff.trans ?_⟩
    simp [hpos.ne']
  | true =>
    rw [if_pos rfl] at hs
    obtain ⟨t, -, rfl⟩ := wholeStep_max hraw hpos hs
    have hone := one_pos.trans_le (le_max_right t 1)
    exact ⟨hone.le, iff_of_true hone (Or.inl rfl)⟩

end

/-- The step of a finite positive span is finite, unless there is only one interval and the span, but for the part that is forgiven,
is beyond the last power of ten; it is infinite then. A finite step is positive, unless it is not whole and one or two of the smallest
units fall on an interval; it is zero then. So many finite steps as there are intervals make up the span, but for two parts in
`10 ^ 9`, if the step is whole, or if nothing or at least `2 ^ 32` of the smallest units fall on an interval. -/
theorem step_suits_span_unless_extreme {limit : ℕ} (hlimit : limit < 2 ^ 64) {span : Binary64} {w : ℚ} (h : span.Denotes w)
    (hw : 0 < w) (whole : Bool) :
    (limit ≤ 2 ∧ (forgiven span).le 1e308 = false → tickStep span limit whole = .infinite false) ∧
    (2 < limit ∨ (forgiven span).le 1e308 = true → ∃ s, (tickStep span limit whole).Denotes s ∧ 0 ≤ s ∧
      (0 < s ↔ whole = true ∨ partOf w limit = 0 ∨ 3 * double.smallest ≤ partOf w limit) ∧
      (whole = true ∨ partOf w limit = 0 ∨ 2 ^ 32 * double.smallest ≤ partOf w limit →
        w * (1 - 2 / 10 ^ 9) ≤ s * intervals limit)) := by
  rcases tickStep_finite_or_infinite hlimit.le h hw whole with ⟨s, hs, hfinite⟩ | ⟨hinfinite, hone, hbeyond⟩
  · constructor
    · rintro ⟨hone, hbeyond⟩
      rcases hfinite with hmore | hle
      · exact absurd hmore hone.not_gt
      · exact absurd (hbeyond.symm.trans hle) Bool.false_ne_true
    · intro _
      obtain ⟨hnonneg, hpos⟩ := tickStep_pos_iff hlimit.le h hw hs
      exact ⟨s, hs, hnonneg, hpos, span_le_step_mul hlimit.le h hw hs⟩
  · constructor
    · intro _
      exact hinfinite
    · rintro (hmore | hle)
      · exact absurd hmore hone.not_gt
      · exact absurd (hbeyond.symm.trans hle) Bool.false_ne_true

/-- A span just above the last power of ten that is not divided: the forgiven part makes its step that power, which is positive and
large enough. -/
theorem step_of_span_above_last_power : ∃ s, (tickStep 1.0000000005e308 2 false).Denotes s ∧ 0 < s ∧
    (1.0000000005e308 : Binary64).value * (1 - 2 / 10 ^ 9) ≤ s * intervals 2 := by
  have hspan : (1.0000000005e308 : Binary64).isFinite = true := by decide +kernel
  have hpart : 2 ^ 32 * double.smallest ≤ partOf (1.0000000005e308 : Binary64).value 2 := by decide +kernel
  have hmore : 3 * double.smallest ≤ 2 ^ 32 * double.smallest := mul_le_mul_of_nonneg_right (by norm_num) double.smallest_pos.le
  obtain ⟨-, hfinite⟩ :=
    step_suits_span_unless_extreme (show 2 < 2 ^ 64 by decide) (Binary.denotes_value hspan) (by decide +kernel) false
  obtain ⟨s, hs, -, hpos, hlarge⟩ := hfinite (Or.inr (by decide +kernel))
  exact ⟨s, hs, hpos.mpr (Or.inr (Or.inr (hmore.trans hpart))), hlarge (Or.inr (Or.inr hpart))⟩

/-- Spans without a suitable step. Of 14 of the smallest units one falls on each of 14 intervals, and the step is zero. A span beyond
the last power of ten, not divided, has an infinite step. The step of 202 of the smallest units, not divided, is 200 of them. -/
theorem extreme_spans_without_step :
    (0 < (7e-323 : Binary64).value ∧ tickStep 7e-323 15 false = 0) ∧
    ((1.5e308 : Binary64).isFinite = true ∧ 0 < (1.5e308 : Binary64).value ∧ tickStep 1.5e308 2 false = .infinite false) ∧
    (tickStep 9.98e-322 2 false = 9.9e-322 ∧
      (9.9e-322 : Binary64).value * intervals 2 < (9.98e-322 : Binary64).value * (1 - 2 / 10 ^ 9)) := by
  decide +kernel

end StreamCharts
