import StreamCharts.Proofs.Chart.Step

/-!
# Indices and positions

The marks of an axis stand at the multiples of a step. The index of the first is the quotient of the lower bound by the step, moved
up to an integer; that of the last is the quotient of the upper bound, moved down; both are held within 64 bits (`firstIndex_eq`,
`lastIndex_eq`). For bounds of no more than `2 ^ 63` steps the position of an index between them is finite and leaves the bounds by
rounding only (`position_within`). The positions of indices of no more than 52 binary places stay apart (`nearest_mul_lt`).
-/

namespace StreamCharts

open Format

/-! ## Indices -/

/-- A power of two is a number of 64 bits. -/
theorem nearest_two_pow_double {n : ℕ} : double.nearest (2 ^ n) = 2 ^ n := by
  rw [← zpow_natCast]
  exact double.nearest_two_zpow (hasIntegers_double.fine.trans (Int.natCast_nonneg n))

/-- An integer that is not below the range of 64 bits is held from above only. -/
theorem clampInt64_eq_min {n : ℤ} (h : -2 ^ 63 ≤ n) : Binary.clampInt64 n = min n (2 ^ 63 - 1) := by
  rw [Binary.clampInt64_eq]
  omega

section

variable {bound step : Binary64} {x s : ℚ}

/-- The quotient of a bound within reach is a number within reach. -/
theorem quotient_denotes (hbound : bound.Denotes x) (hstep : step.Denotes s) (hpos : 0 < s) (hreach : |x| ≤ 2 ^ 63 * s) :
    (bound / step).Denotes (double.nearest (x / s)) ∧ |double.nearest (x / s)| ≤ 2 ^ 63 := by
  have hquot : |x / s| ≤ 2 ^ 63 := by rwa [abs_div, abs_of_pos hpos, div_le_iff₀ hpos]
  have hfits : double.Fits (x / s) := fits_of_le_two_zpow (show (63 : ℤ) ≤ 1023 by decide) hquot
  refine ⟨hbound.div hstep hpos.ne' hfits, ?_⟩
  rw [double.abs_nearest, ← nearest_two_pow_double]
  exact double.nearest_mono hquot

/-- The first index is the quotient moved up to an integer, or the last integer of 64 bits. -/
theorem firstIndex_eq (hbound : bound.Denotes x) (hstep : step.Denotes s) (hpos : 0 < s) (hreach : |x| ≤ 2 ^ 63 * s) :
    (bound / step).ceil.toInt = min ⌈double.nearest (x / s)⌉ (2 ^ 63 - 1) := by
  obtain ⟨hquot, hbig⟩ := quotient_denotes hbound hstep hpos hreach
  rw [hquot.toInt_ceil hasIntegers_double]
  apply clampInt64_eq_min
  have hlow := (neg_le_of_abs_le hbig).trans (Int.le_ceil _)
  exact_mod_cast hlow

/-- The last index is the quotient moved down to an integer, or the last integer of 64 bits. -/
theorem lastIndex_eq (hbound : bound.Denotes x) (hstep : step.Denotes s) (hpos : 0 < s) (hreach : |x| ≤ 2 ^ 63 * s) :
    (bound / step).floor.toInt = min ⌊double.nearest (x / s)⌋ (2 ^ 63 - 1) := by
  obtain ⟨hquot, hbig⟩ := quotient_denotes hbound hstep hpos hreach
  rw [hquot.toInt_floor hasIntegers_double]
  apply clampInt64_eq_min
  rw [Int.le_floor]
  exact_mod_cast neg_le_of_abs_le hbig

/-- An index from the first on is a number that the quotient does not exceed. -/
theorem le_nearest_index (hbound : bound.Denotes x) (hstep : step.Denotes s) (hpos : 0 < s) (hreach : |x| ≤ 2 ^ 63 * s) {i : ℤ}
    (hi : (bound / step).ceil.toInt ≤ i) : double.nearest (x / s) ≤ double.nearest i := by
  obtain ⟨hquot, hbig⟩ := quotient_denotes hbound hstep hpos hreach
  rw [firstIndex_eq hbound hstep hpos hreach] at hi
  rcases min_le_iff.mp hi with hceil | hlast
  · rw [← hquot.nearest_eq]
    exact double.nearest_mono (Int.ceil_le.mp hceil)
  · -- the last integer of 64 bits is rounded to the next power of two
    have hexact : double.nearest ((2 ^ 63 - 1 : ℤ) : ℚ) = 2 ^ 63 := by decide +kernel
    have hmono := double.nearest_mono (Int.cast_le.mpr hlast)
    rw [hexact] at hmono
    exact (le_of_abs_le hbig).trans hmono

/-- An index up to the last is a number that does not exceed the quotient. -/
theorem nearest_index_le (hbound : bound.Denotes x) (hstep : step.Denotes s) (hpos : 0 < s) (hreach : |x| ≤ 2 ^ 63 * s) {i : ℤ}
    (hi : i ≤ (bound / step).floor.toInt) : double.nearest i ≤ double.nearest (x / s) := by
  obtain ⟨hquot, -⟩ := quotient_denotes hbound hstep hpos hreach
  rw [lastIndex_eq hbound hstep hpos hreach] at hi
  rw [← hquot.nearest_eq]
  exact double.nearest_mono (Int.le_floor.mp (hi.trans (min_le_left _ _)))

end

/-! ## Positions -/

section

variable {s x : ℚ}

/-- The largest number, divided by a very large step and multiplied by it, is rounded to a finite number. The bounds on the errors of
rounding would allow an overflow, so the few steps of that size are each computed. -/
theorem largest_quotient_mul_lt : double.magnitude (double.infinityRank - 1) = 2 ^ (1024 : ℤ) - 2 ^ (971 : ℤ) ∧
    ∀ d ∈ List.range 20, ∀ m ∈ niceMultiples,
      let s := double.nearest (m.value * (powerOfTen (288 + (d : ℕ))).value)
      double.nearest ((2 ^ (1024 : ℤ) - 2 ^ (971 : ℤ)) / s) * s < 2 ^ (1024 : ℤ) - 2 ^ (970 : ℤ) := by
  decide +kernel

/-- A step is not very large, or one of those few. -/
theorem IsStep.le_or_large (h : IsStep s) : s ≤ 2 ^ (960 : ℤ) ∨ ∃ d ∈ List.range 20, ∃ m ∈ niceMultiples,
    s = double.nearest (m.value * (powerOfTen (288 + (d : ℕ))).value) := by
  rcases h with rfl | ⟨m, hm, d, hd, rfl⟩
  · exact Or.inl (one_le_zpow₀ one_le_two (by decide))
  rcases lt_or_ge d 288 with hsmall | hlarge
  · left
    have hproduct := multiple_le hm (show d ≤ 287 by omega) (by decide) (by decide)
    rw [← double.nearest_two_zpow (show double.minExponent ≤ 960 by decide)]
    obtain ⟨-, -, -, hlarge, -⟩ := ten_zpow_bounds
    exact double.nearest_mono (hproduct.trans hlarge)
  · right
    refine ⟨(d - 288).toNat, List.mem_range.mpr (by omega), m, hm, ?_⟩
    rw [show 288 + ((d - 288).toNat : ℤ) = d by omega]

/-- The quotient of a number within reach, times the step, is a finite number again. -/
theorem IsStep.fits_quotient_mul (h : IsStep s) {bound : Binary64} (hbound : bound.Denotes x) (hpos : 0 < s)
    (hreach : |x| ≤ 2 ^ 63 * s) : double.Fits (double.nearest (x / s) * s) := by
  have hmagnitude : |double.nearest (x / s) * s| = double.nearest (|x| / s) * s := by
    rw [abs_mul, abs_of_pos hpos, double.abs_nearest, abs_div, abs_of_pos hpos]
  rcases h.le_or_large with hsmall | ⟨d, hd, m, hm, hs⟩
  · have hquot : double.nearest (|x| / s) ≤ 2 ^ 63 := by
      rw [← nearest_two_pow_double]
      exact double.nearest_mono ((div_le_iff₀ hpos).mpr hreach)
    apply fits_of_le_two_zpow le_rfl
    rw [hmagnitude]
    calc double.nearest (|x| / s) * s ≤ 2 ^ 63 * 2 ^ (960 : ℤ) := by gcongr
      _ = 2 ^ (1023 : ℤ) := by rw [← zpow_natCast, ← zpow_add₀ two_ne_zero]; rfl
  · have htable := largest_quotient_mul_lt.2 d hd m hm
    dsimp only at htable
    rw [← hs] at htable
    apply fits_of_lt_limit_sub
    rw [hmagnitude]
    refine lt_of_le_of_lt ?_ htable
    have hlargest := hbound.abs_le_largest
    rw [largest_quotient_mul_lt.1] at hlargest
    have hquot : double.nearest (|x| / s) ≤ double.nearest ((2 ^ (1024 : ℤ) - 2 ^ (971 : ℤ)) / s) :=
      double.nearest_mono (by gcongr)
    gcongr

/-- The quotient of a number by a step, times the step, is near to the number. -/
theorem abs_quotient_mul_sub_le (hpos : 0 < s) (hs : s ≤ double.limit) :
    |double.nearest (x / s) * s - x| ≤ |x| / 2 ^ 53 + 1 / 2 ^ 51 := by
  have hunit : double.smallest * s ≤ 1 / 2 ^ 50 := by
    have hsmallest := double.smallest_pos
    calc double.smallest * s ≤ double.smallest * double.limit := by gcongr
      _ = 1 / 2 ^ 50 := by
        rw [smallest_double, limit_double, ← zpow_add₀ two_ne_zero]
        norm_num
  have hquot := double.abs_nearest_sub_le_add (x / s)
  have hdiff : double.nearest (x / s) * s - x = (double.nearest (x / s) - x / s) * s := by
    rw [sub_mul, div_mul_cancel₀ _ hpos.ne']
  rw [two_mul_binade_double, abs_div, abs_of_pos hpos] at hquot
  rw [hdiff, abs_mul, abs_of_pos hpos]
  calc |double.nearest (x / s) - x / s| * s ≤ (|x| / s / 2 ^ 53 + double.smallest / 2) * s := by gcongr
    _ = |x| / 2 ^ 53 + double.smallest * s / 2 := by field_simp
    _ ≤ |x| / 2 ^ 53 + 1 / 2 ^ 51 := by linarith

/-- So is that product when it is rounded. -/
theorem abs_nearest_quotient_mul_sub_le (hpos : 0 < s) (hs : s ≤ double.limit) :
    |double.nearest (double.nearest (x / s) * s) - x| ≤ 1 / 10 ^ 9 * max 1 |x| := by
  have hproduct := abs_quotient_mul_sub_le (x := x) hpos hs
  generalize double.nearest (x / s) * s = y at hproduct ⊢
  have hround := double.abs_nearest_sub_le_add y
  rw [two_mul_binade_double] at hround
  have hy : |y| ≤ |y - x| + |x| := by
    calc |y| = |y - x + x| := by rw [sub_add_cancel]
      _ ≤ |y - x| + |x| := abs_add_le _ _
  have htotal : |double.nearest y - x| ≤ |double.nearest y - y| + |y - x| := abs_sub_le _ _ _
  have hone := le_max_left 1 |x|
  have hx := le_max_right 1 |x|
  have htiny := smallest_double_le (n := 50) (by decide)
  linarith

/-- Multiples of a number stay apart when rounded, if their factors have few binary places. -/
theorem nearest_mul_lt {step : Binary64} (hstep : step.Denotes s) (hpos : 0 < s) {i j : ℤ} (hi : |i| ≤ 2 ^ 52)
    (hj : |j| ≤ 2 ^ 52) (hlt : i < j) : double.nearest (i * s) < double.nearest (j * s) := by
  have herror (k : ℤ) : |double.nearest (k * s) - k * s| ≤ |(k : ℚ)| * s / 2 ^ 53 := by
    obtain ⟨n, rfl⟩ := hstep.multiple
    have hmultiple := double.abs_nearest_sub_le_of_multiple (k * n)
    rwa [Int.cast_mul, mul_assoc, abs_mul, abs_of_pos hpos, two_mul_binade_double] at hmultiple
  have hbelow := (abs_le.mp (herror i)).2
  have habove := (abs_le.mp (herror j)).1
  -- the two errors together are less than a step, as neighbours are not both of full size
  have hfew : |i| + |j| < 2 ^ 53 * (j - i) := by
    have hi' := abs_le.mp hi
    have hj' := abs_le.mp hj
    rcases abs_cases i with ⟨hai, -⟩ | ⟨hai, -⟩ <;> rcases abs_cases j with ⟨haj, -⟩ | ⟨haj, -⟩ <;> omega
  have hfew' : (|(i : ℚ)| + |(j : ℚ)|) * s < 2 ^ 53 * (j - i) * s := by
    refine mul_lt_mul_of_pos_right ?_ hpos
    exact_mod_cast hfew
  linarith

section

variable {low high step : Binary64} {x y : ℚ}

/-- The position of an index between the bounds is finite and leaves the bounds by rounding only. -/
theorem position_within (hlow : low.Denotes x) (hhigh : high.Denotes y) (hstep : step.Denotes s) (hs : IsStep s) (hpos : 0 < s)
    (hx : |x| ≤ 2 ^ 63 * s) (hy : |y| ≤ 2 ^ 63 * s) {i : ℤ} (hfirst : (low / step).ceil.toInt ≤ i)
    (hlast : i ≤ (high / step).floor.toInt) :
    (Binary.ofInt .double i * step).Denotes (double.nearest (double.nearest i * s)) ∧
      x - 1 / 10 ^ 9 * max 1 |x| ≤ double.nearest (double.nearest i * s) ∧
      double.nearest (double.nearest i * s) ≤ y + 1 / 10 ^ 9 * max 1 |y| := by
  have hbelow := le_nearest_index hlow hstep hpos hx hfirst
  have habove := nearest_index_le hhigh hstep hpos hy hlast
  have hindex : double.Fits i := by
    have hquotLow := (quotient_denotes hlow hstep hpos hx).1
    have hquotHigh := (quotient_denotes hhigh hstep hpos hy).1
    exact abs_lt.mpr ⟨(abs_lt.mp hquotLow.abs_lt_limit).1.trans_le hbelow, habove.trans_lt (abs_lt.mp hquotHigh.abs_lt_limit).2⟩
  have hscaledBelow := mul_le_mul_of_nonneg_right hbelow hpos.le
  have hscaledAbove := mul_le_mul_of_nonneg_right habove hpos.le
  have hfits : double.Fits (double.nearest i * s) :=
    (hs.fits_quotient_mul hlow hpos hx).of_between (hs.fits_quotient_mul hhigh hpos hy) hscaledBelow hscaledAbove
  have hlimit := (le_abs_self s).trans hstep.abs_lt_limit.le
  have hnearLow := (abs_le.mp (abs_nearest_quotient_mul_sub_le (x := x) hpos hlimit)).1
  have hnearHigh := (abs_le.mp (abs_nearest_quotient_mul_sub_le (x := y) hpos hlimit)).2
  refine ⟨(Binary.round_denotes false hindex).mul hstep hfits, ?_, ?_⟩
  · linarith [double.nearest_mono hscaledBelow]
  · linarith [double.nearest_mono hscaledAbove]

/-- The position of an index that is a number is the nearest to the exact multiple; that of index 0 is the positive zero. -/
theorem ofInt_mul_eq (hstep : step.Denotes s) (hpos : 0 < s) {k : ℤ} (hk : |k| ≤ 2 ^ 53) :
    Binary.ofInt .double k * step = Binary.ofRat .double (k * s) := by
  have hindex : (Binary.ofInt .double k).Denotes k := Binary.ofInt_denotes hasIntegers_double (hk.trans (by decide))
  obtain ⟨t, j, rfl, rfl⟩ := hstep.eq_finite
  rcases eq_or_ne k 0 with rfl | hne
  · have hzero : Binary.ofInt .double 0 = .finite false ⟨0, by decide⟩ := by
      rw [Binary.ofInt, Binary.ofRat, Int.cast_zero, Binary.round, if_pos rfl, Binary.ofRank, dif_pos]
    have hpositive : t = false := by
      cases t with
      | false => rfl
      | true =>
        have hmagnitude := double.magnitude_strictMono.monotone (Nat.zero_le j)
        rw [double.magnitude_zero] at hmagnitude
        rw [Binary.value_negative] at hpos
        linarith
    rw [hzero, hpositive]
    change Binary.round .double false _ = _
    rw [Binary.value_zero false rfl, zero_mul, Int.cast_zero, zero_mul]
    rfl
  · obtain ⟨u, i, hi, hvalue⟩ := hindex.eq_finite
    have hproduct : (k : ℚ) * (Binary.finite t j).value ≠ 0 := mul_ne_zero (Int.cast_ne_zero.mpr hne) hpos.ne'
    rw [hi]
    change Binary.round .double (u ^^ t) ((Binary.finite u i).value * (Binary.finite t j).value) = _
    rw [hvalue, Binary.ofRat, Binary.round, Binary.round, if_neg hproduct, if_neg hproduct]

end

end

end StreamCharts
