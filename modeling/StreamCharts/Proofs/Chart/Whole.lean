import StreamCharts.Proofs.Chart.Marks
import StreamCharts.Proofs.Text.Numerals

/-!
# Whole marks and their labels

The marks of an axis of whole numbers are few, have one step, which is a whole number from one on, and stand at integers, whatever
the bounds are (`whole_marks_for_all_bounds`): an index is an integer, a product of integers is rounded to an integer, and it does not
overflow. The label of a mark is read back as that integer, held within 64 bits (`labels_read_as_held_positions`). So marks beyond the
integers of 64 bits share a label (`far_marks_share_label`).
-/

namespace StreamCharts

open Format

/-! ## Whole steps -/

/-- A whole step denotes a whole number from one on. -/
theorem tickStep_whole {limit : ℕ} (hlow : 2 < limit) (hlimit : limit ≤ 2 ^ 64) (span : Binary64) :
    ∃ n : ℕ, (tickStep span limit true).Denotes n ∧ 1 ≤ n := by
  suffices hint : ∃ n : ℤ, (tickStep span limit true).Denotes n ∧ 1 ≤ n by
    obtain ⟨n, hn, hone⟩ := hint
    obtain ⟨k, rfl⟩ := Int.eq_ofNat_of_zero_le (zero_le_one.trans hone)
    exact ⟨k, by rwa [Int.cast_natCast] at hn, by exact_mod_cast hone⟩
  rcases tickStep_cases hlimit span true with ⟨hone, -⟩ | ⟨raw, w, hspan, hraw, hpos, hstep⟩
  · exact ⟨1, by rw [hone, Int.cast_one]; exact one_denotes, le_rfl⟩
  obtain ⟨m, hm, heq⟩ := niceStep_eq ten_mem_integerMultiples raw
  have hd := decadeOf_le hpos (partOf_le hlow hspan)
  rw [← hraw.value] at hd
  obtain ⟨n, hn⟩ := max_integerMultiple_isInt hm (show decadeOf raw.value ≤ 308 by omega)
  have hdenotes := wholeStep_denotes hm (by omega) (multiple_fits (integerMultiples_subset hm) hd)
  have hone := le_max_right (double.nearest (m.value * (powerOfTen (decadeOf raw.value)).value)) 1
  rw [hn] at hdenotes hone
  rw [hstep, if_pos rfl, heq]
  exact ⟨n, hdenotes, by exact_mod_cast hone⟩

/-! ## Positions of all indices -/

section

variable {low high step : Binary64} {x y s : ℚ}

/-- The position of an index between the bounds is a finite number, also where the index is cut to 64 bits: the cut position is not
farther from zero than the bound. -/
theorem position_denotes (hlow : low.Denotes x) (hhigh : high.Denotes y) (hstep : step.Denotes s) (hs : IsStep s) (hpos : 0 < s)
    {i : ℤ} (hfirst : (low / step).ceil.toInt ≤ i) (hlast : i ≤ (high / step).floor.toInt) :
    (Binary.ofInt .double i * step).Denotes (double.nearest (double.nearest i * s)) := by
  by_cases hreach : |x| ≤ 2 ^ 63 * s ∧ |y| ≤ 2 ^ 63 * s
  · exact (position_within hlow hhigh hstep hs hpos hreach.1 hreach.2 hfirst hlast).1
  have hindex : |(i : ℚ)| ≤ 2 ^ 63 := by
    have hbelow := (low / step).ceil.toInt_bounds.1.trans hfirst
    have habove := hlast.trans (high / step).floor.toInt_bounds.2
    have hcut : |i| ≤ 2 ^ 63 := abs_le.mpr ⟨hbelow, by omega⟩
    exact_mod_cast hcut
  have hscaled : |double.nearest i * s| ≤ 2 ^ 63 * s := by
    have hnear : |double.nearest i| ≤ 2 ^ 63 := by
      rw [double.abs_nearest, ← nearest_two_pow_double]
      exact double.nearest_mono hindex
    rw [abs_mul, abs_of_pos hpos]
    exact mul_le_mul_of_nonneg_right hnear hpos.le
  have hfits : double.Fits (double.nearest i * s) := by
    rcases not_and_or.mp hreach with hfar | hfar
    · exact hlow.fits.of_abs_le (hscaled.trans (not_le.mp hfar).le)
    · exact hhigh.fits.of_abs_le (hscaled.trans (not_le.mp hfar).le)
  exact (Binary.round_denotes false (fits_of_le_two_zpow (show (63 : ℤ) ≤ 1023 by decide) hindex)).mul hstep hfits

end

/-- The rounded product of an integer, which is rounded itself, and a whole number is an integer. -/
theorem nearest_index_mul_isInt (i : ℤ) (n : ℕ) : ∃ k : ℤ, double.nearest (double.nearest i * n) = k := by
  obtain ⟨j, hj⟩ := double.nearest_intCast_isInt i
  obtain ⟨k, hk⟩ := double.nearest_intCast_isInt (j * n)
  refine ⟨k, ?_⟩
  rw [hj, ← hk, Int.cast_mul, Int.cast_natCast]

/-! ## Whole marks -/

/-- The marks of an axis of whole numbers, by what they denote. -/
theorem integer_marks (bounds : Binary64 × Binary64) :
    ∃ marks, TickPolicy.integer.marks bounds = some marks ∧ marks.length ≤ 10 ∧
      ∃ (step : Binary64) (n : ℕ), step.Denotes n ∧ 1 ≤ n ∧
        ∀ mark ∈ marks, mark.step = step ∧ ∃ k : ℤ, mark.position.Denotes k := by
  refine ⟨_, rfl, ?_⟩
  rcases limitedMarks_eq_nil_or bounds maxIntegerTicks true with hnil | ⟨low, high, hbounds⟩
  · rw [hnil]
    exact ⟨Nat.zero_le _, 1, 1, by rw [Nat.cast_one]; exact one_denotes, le_rfl, fun mark hmark => nomatch hmark⟩
  rw [limitedMarks_eq hbounds (by decide)]
  have hlimit : 2 < maxIntegerTicks ∧ maxIntegerTicks ≤ 2 ^ 64 := by decide
  obtain ⟨n, hstep, hone⟩ := tickStep_whole hlimit.1 hlimit.2 (high - low)
  obtain ⟨s, hdenotes, hs⟩ := tickStep_denotes hlimit.1 hlimit.2 (high - low) true
  obtain rfl : s = n := hdenotes.value.symm.trans hstep.value
  have hpos : (0 : ℚ) < n := by exact_mod_cast hone
  refine ⟨?_, _, n, hstep, hone, ?_⟩
  · unfold marksBetween
    dsimp only
    rw [List.length_map]
    exact length_integersUpTo_le _ _ _
  · intro mark hmark
    obtain ⟨i, hfirst, hlast, -, rfl⟩ := mem_marksBetween.mp hmark
    have hposition := position_denotes (Binary.denotes_value hbounds.1) (Binary.denotes_value hbounds.2.1) hstep hs hpos hfirst hlast
    obtain ⟨k, hk⟩ := nearest_index_mul_isInt i n
    rw [hk] at hposition
    exact ⟨rfl, k, hposition⟩

/-- For any bounds, in either order, far from zero or not even finite, an axis of whole numbers has at most ten marks. All have one
step, which is a whole number from one on. Each stands at an integer, and rounding its position does not change it. -/
theorem whole_marks_for_all_bounds (bounds : Binary64 × Binary64) :
    ∃ marks, TickPolicy.integer.marks bounds = some marks ∧ marks.length ≤ 10 ∧
      ∃ (step : Binary64) (n : ℕ), step.Denotes n ∧ 1 ≤ n ∧ ∀ mark ∈ marks, mark.step = step ∧
        mark.position.roundHalfAway.same mark.position = true ∧ ∃ k : ℤ, mark.position.Denotes k := by
  obtain ⟨marks, hmarks, hfew, step, n, hstep, hone, heach⟩ := integer_marks bounds
  refine ⟨marks, hmarks, hfew, step, n, hstep, hone, ?_⟩
  intro mark hmark
  obtain ⟨hequal, k, hk⟩ := heach mark hmark
  exact ⟨hequal, (hk.roundHalfAway hasIntegers_double).same hk, k, hk⟩

/-- The marks between two fractions. -/
theorem integer_marks_between_fractions : TickPolicy.integer.marks (-0.4, 1.3) = some [⟨0, 1⟩, ⟨1, 1⟩] := by
  decide +kernel

/-- Bounds that are not integers have marks at integers: the second mark between -0.4 and 1.3. -/
theorem whole_mark_between_fractions : ∃ marks, TickPolicy.integer.marks (-0.4, 1.3) = some marks ∧ ⟨1, 1⟩ ∈ marks ∧
    (1 : Binary64).roundHalfAway.same 1 = true := by
  obtain ⟨marks, hmarks, -, step, n, -, -, heach⟩ := whole_marks_for_all_bounds (-0.4, 1.3)
  obtain rfl := Option.some.inj (hmarks.symm.trans integer_marks_between_fractions)
  obtain ⟨-, hwhole, -⟩ := heach ⟨1, 1⟩ (by simp)
  exact ⟨_, hmarks, by simp, hwhole⟩

/-! ## Labels -/

/-- The label of a mark at an integer is that integer, held within 64 bits. -/
theorem integerLabel_eq {mark : Mark} {k : ℤ} (h : mark.position.Denotes k) :
    integerLabel mark = Numeral.signedDecimal (Binary.clampInt64 k) := by
  rw [integerLabel, (h.roundHalfAway hasIntegers_double).toInt]

/-- What is written for an integer is read as that integer. -/
theorem integer?_signedDecimal (n : ℤ) : Numeral.integer? (Numeral.signedDecimal n).toList = some n := by
  have hspells : Numeral.Spells n (Numeral.signedDecimal n) := by
    unfold Numeral.signedDecimal
    split
    · rename_i hneg
      exact Numeral.Spells.minus hneg.le 0
    · rename_i hnonneg
      have hplain := Numeral.Spells.plain (not_lt.mp hnonneg) 0
      rwa [List.replicate_zero, String.ofList_nil, String.empty_append] at hplain
  exact hspells.integer?_eq

/-- For any bounds the label of a mark of an axis of whole numbers is read as the integer at which the mark stands, held within 64
bits: as that integer itself if 64 bits hold it, and only then. Two marks of one label stand at one integer, or both beyond the
integers of 64 bits, on the same side. -/
theorem labels_read_as_held_positions (bounds : Binary64 × Binary64) :
    ∃ marks, TickPolicy.integer.marks bounds = some marks ∧
      (∀ mark ∈ marks, ∃ k : ℤ, mark.position.Denotes k ∧
        Numeral.integer? (integerLabel mark).toList = some (Binary.clampInt64 k) ∧
        (Numeral.integer? (integerLabel mark).toList = some k ↔ -2 ^ 63 ≤ k ∧ k < 2 ^ 63)) ∧
      ∀ mark ∈ marks, ∀ other ∈ marks, integerLabel mark = integerLabel other →
        mark.position.value = other.position.value ∨
          2 ^ 63 - 1 ≤ mark.position.value ∧ 2 ^ 63 - 1 ≤ other.position.value ∨
          mark.position.value ≤ -2 ^ 63 ∧ other.position.value ≤ -2 ^ 63 := by
  obtain ⟨marks, hmarks, -, step, n, -, -, heach⟩ := integer_marks bounds
  refine ⟨marks, hmarks, ?_, ?_⟩
  · intro mark hmark
    obtain ⟨-, k, hk⟩ := heach mark hmark
    have hread : Numeral.integer? (integerLabel mark).toList = some (Binary.clampInt64 k) := by
      rw [integerLabel_eq hk, integer?_signedDecimal]
    refine ⟨k, hk, hread, ?_⟩
    rw [hread, Option.some.injEq, Binary.clampInt64_eq]
    omega
  · intro mark hmark other hother hlabel
    obtain ⟨-, k, hk⟩ := heach mark hmark
    obtain ⟨-, j, hj⟩ := heach other hother
    have hequal : some (Binary.clampInt64 k) = some (Binary.clampInt64 j) := by
      rw [← integer?_signedDecimal, ← integer?_signedDecimal, ← integerLabel_eq hk, ← integerLabel_eq hj, hlabel]
    rw [Option.some.injEq, Binary.clampInt64_eq, Binary.clampInt64_eq] at hequal
    have hcases : k = j ∨ 2 ^ 63 - 1 ≤ k ∧ 2 ^ 63 - 1 ≤ j ∨ k ≤ -2 ^ 63 ∧ j ≤ -2 ^ 63 := by omega
    rw [hk.value, hj.value]
    exact_mod_cast hcases

/-- The label of the last mark between -0.4 and 1.3 is read as its position. -/
theorem label_of_last_mark : Numeral.integer? (integerLabel ⟨1, 1⟩).toList = some 1 := by
  obtain ⟨marks, hmarks, hlabels, -⟩ := labels_read_as_held_positions (-0.4, 1.3)
  obtain rfl := Option.some.inj (hmarks.symm.trans integer_marks_between_fractions)
  obtain ⟨k, hk, -, hread⟩ := hlabels ⟨1, 1⟩ (by simp)
  obtain rfl : k = 1 := by exact_mod_cast hk.value.symm.trans one_denotes.value
  exact hread.mpr (by decide)

/-- Beyond the integers of 64 bits the labels fail: between `10 ^ 19` and `2 * 10 ^ 19` stand six marks of different values, and all
are labelled with the last integer of 64 bits, which is the position of none. -/
theorem far_marks_share_label : ∃ marks, TickPolicy.integer.marks (1e19, 2e19) = some marks ∧
    marks.map (·.position) = [1e19, 1.2e19, 1.4e19, 1.6e19, 1.8e19, 2e19] ∧
    (∀ mark ∈ marks, integerLabel mark = "9223372036854775807" ∧ mark.position.value ≠ 9223372036854775807) ∧
    (1e19 : Binary64).value < (1.2e19 : Binary64).value := by
  refine ⟨_, rfl, ?_⟩
  decide +kernel

end StreamCharts
