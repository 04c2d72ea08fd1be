import StreamCharts.Proofs.Binary.Operations

/-!
# The nearest of all finite numbers

Rounding goes by units: the exact value is measured in the unit of its binade, and the number of units is rounded. Here, what this
comes to in terms of the numbers of the format alone (`Binary.IsNearest`): no finite number is nearer to the exact value than the
one it is rounded to, and if another is as near, the chosen one has an even rank. A number that is no multiple of the unit is
farther away than some multiple (`Format.multiple_or_farther`), so it is enough to compare multiples, and these are compared as
whole numbers.
-/

namespace StreamCharts

/-! ## Whole numbers -/

/-- Different integers are at least 1 apart, so their distances from a number add up to 1 or more. -/
theorem one_le_distances {m n : ℤ} (h : m ≠ n) (x : ℚ) : 1 ≤ |(m : ℚ) - x| + |(n : ℚ) - x| := by
  have hapart : (1 : ℚ) ≤ |(m : ℚ) - n| := by exact_mod_cast Int.one_le_abs (sub_ne_zero.mpr h)
  have htriangle := abs_sub_le (m : ℚ) x n
  rw [abs_sub_comm x] at htriangle
  exact hapart.trans htriangle

/-- No integer is nearer to a number than the one it is rounded to. -/
theorem abs_roundHalfEven_sub_le_of_int {x : ℚ} (hx : 0 ≤ x) (m : ℤ) : |(roundHalfEven x : ℚ) - x| ≤ |(m : ℚ) - x| := by
  by_cases heq : m = roundHalfEven x
  · rw [heq, Int.cast_natCast]
  · have hapart := one_le_distances heq x
    have hhalf := abs_roundHalfEven_sub_le hx
    rw [Int.cast_natCast] at hapart
    linarith

/-- If another integer is as near to a number as the one it is rounded to, this one is even. -/
theorem roundHalfEven_even {x : ℚ} (hx : 0 ≤ x) {m : ℤ} (hne : m ≠ roundHalfEven x)
    (htie : |(m : ℚ) - x| = |(roundHalfEven x : ℚ) - x|) : roundHalfEven x % 2 = 0 := by
  have hapart := one_le_distances hne x
  rw [Int.cast_natCast, htie] at hapart
  have hfloor : ((x.floor.toNat : ℕ) : ℚ) = ⌊x⌋ := by
    exact_mod_cast Int.toNat_of_nonneg (Int.floor_nonneg.mpr hx)
  have hlow := Int.floor_le x
  have hhigh := Int.lt_floor_add_one x
  rw [← hfloor] at hlow hhigh
  -- the number lies in the middle between two integers: elsewhere the nearest one is nearer than one half
  unfold roundHalfEven at hapart ⊢
  dsimp only at hapart ⊢
  split at hapart
  · rw [abs_of_nonpos (by linarith)] at hapart
    linarith
  · split at hapart
    · push_cast at hapart
      rw [abs_of_nonneg (by linarith)] at hapart
      linarith
    · rename_i hbelow habove
      rw [if_neg hbelow, if_neg habove]
      omega

namespace Format

variable {f : Format} {b : Binary f} {w x : ℚ}

/-! ## Multiples of the unit -/

/-- The distance from a multiple of the unit, measured in units. -/
theorem abs_mul_unit_sub (x a : ℚ) : |a * f.unit x - x| = |a - x / f.unit x| * f.unit x := by
  have hunit := f.unit_pos x
  have hscale : a * f.unit x - x = (a - x / f.unit x) * f.unit x := by rw [sub_mul, div_mul_cancel₀ _ hunit.ne']
  rw [hscale, abs_mul, abs_of_pos hunit]

/-- The value of a number between one and two binades of a unit is a multiple of the unit. -/
theorem exists_multiple_of_binade (h : b.Denotes w) (hlow : f.binade * f.unit x < w) : ∃ m : ℤ, w = m * f.unit x := by
  have hbinade : (0 : ℚ) < f.binade := by exact_mod_cast f.binade_pos
  obtain ⟨k, e, hk, -, rfl⟩ := h.units
  have hpow : (0 : ℚ) < 2 ^ e := by positivity
  have hfew : (k : ℚ) ≤ 2 * f.binade := by exact_mod_cast (le_abs_self k).trans hk
  have hexp : f.unitExponent x < e + 1 := by
    have hunit : f.unit x < 2 ^ (e + 1) := by
      rw [zpow_add_one₀ two_ne_zero]
      refine lt_of_mul_lt_mul_left (hlow.trans_le ?_) hbinade.le
      calc (k : ℚ) * 2 ^ e ≤ 2 * f.binade * 2 ^ e := mul_le_mul_of_nonneg_right hfew hpow.le
        _ = f.binade * (2 ^ e * 2) := by ring
    exact (zpow_lt_zpow_iff_right₀ one_lt_two).mp hunit
  obtain ⟨j, hj⟩ := Int.eq_ofNat_of_zero_le (show 0 ≤ e - f.unitExponent x by omega)
  refine ⟨k * 2 ^ j, ?_⟩
  have hsplit : e = j + f.unitExponent x := by omega
  rw [unit, hsplit, zpow_add₀ two_ne_zero, zpow_natCast]
  push_cast
  ring

/-- The value of a number is a multiple of the unit of a positive number, or some multiple is nearer to this. -/
theorem multiple_or_farther (h : b.Denotes w) (hx : 0 < x) :
    (∃ m : ℤ, w = m * f.unit x) ∨ ∃ m : ℤ, |m * f.unit x - x| < |w - x| := by
  by_cases hsmall : f.unit x = f.smallest
  · rw [hsmall]
    exact Or.inl h.multiple
  · have hbelow := f.binade_mul_unit_le hx hsmall
    have habove := (f.lt_binade_mul_unit hx).le
    rcases lt_trichotomy w (f.binade * f.unit x) with hlt | heq | hgt
    · refine Or.inr ⟨f.binade, ?_⟩
      rw [Int.cast_natCast, abs_of_nonpos (sub_nonpos.mpr hbelow), abs_of_nonpos (by linarith)]
      linarith
    · exact Or.inl ⟨f.binade, by rw [heq, Int.cast_natCast]⟩
    · exact Or.inl (exists_multiple_of_binade h hgt)

/-! ## The nearest magnitude -/

/-- No number is nearer to a positive number than the magnitude to which this is rounded. -/
theorem abs_nearestMagnitude_sub_le_of_denotes (h : b.Denotes w) (hx : 0 < x) : |f.nearestMagnitude x - x| ≤ |w - x| := by
  have hunit := f.unit_pos x
  have hmultiple (m : ℤ) : |f.nearestMagnitude x - x| ≤ |m * f.unit x - x| := by
    rw [nearestMagnitude, abs_mul_unit_sub, abs_mul_unit_sub]
    exact mul_le_mul_of_nonneg_right (abs_roundHalfEven_sub_le_of_int (by positivity) m) hunit.le
  rcases multiple_or_farther h hx with ⟨m, rfl⟩ | ⟨m, hnearer⟩
  · exact hmultiple m
  · exact (hmultiple m).trans hnearer.le

/-- If another number is as near to a positive number as the magnitude to which this is rounded, this magnitude is an even number
of units. -/
theorem roundHalfEven_even_of_denotes (h : b.Denotes w) (hx : 0 < x) (hne : w ≠ f.nearestMagnitude x)
    (htie : |w - x| = |f.nearestMagnitude x - x|) : roundHalfEven (x / f.unit x) % 2 = 0 := by
  have hunit := f.unit_pos x
  have hquotient : 0 ≤ x / f.unit x := by positivity
  rcases multiple_or_farther h hx with ⟨m, rfl⟩ | ⟨m, hnearer⟩
  · have hm : m ≠ roundHalfEven (x / f.unit x) := by
      rintro rfl
      exact hne (by rw [nearestMagnitude, Int.cast_natCast])
    rw [nearestMagnitude, abs_mul_unit_sub, abs_mul_unit_sub] at htie
    exact roundHalfEven_even hquotient hm (mul_right_cancel₀ hunit.ne' htie)
  · rw [htie, nearestMagnitude, abs_mul_unit_sub, abs_mul_unit_sub] at hnearer
    have hnearest := abs_roundHalfEven_sub_le_of_int hquotient m
    exact absurd (lt_of_mul_lt_mul_right hnearer hunit.le) hnearest.not_gt

/-- The rank of the nearest magnitude is even if it is an even number of units: whole binades are even. -/
theorem nearestRank_even (hbits : 0 < f.fractionBits) (h : roundHalfEven (x / f.unit x) % 2 = 0) : f.nearestRank x % 2 = 0 := by
  have hbinade : 2 ∣ f.binade := dvd_pow_self 2 hbits.ne'
  have hunits : 2 ∣ roundHalfEven (x / f.unit x) := Nat.dvd_of_mod_eq_zero h
  exact Nat.mod_eq_zero_of_dvd (dvd_add hunits (hbinade.mul_left _))

/-! ## Both signs -/

/-- No number is nearer to an exact value than what this is rounded to. -/
theorem abs_nearest_sub_le_of_denotes (h : b.Denotes w) (x : ℚ) : |f.nearest x - x| ≤ |w - x| := by
  rcases lt_trichotomy x 0 with hneg | rfl | hpos
  · have hpos := neg_pos.mpr hneg
    have hnear := abs_nearestMagnitude_sub_le_of_denotes h.neg hpos
    rwa [← f.nearest_of_nonneg hpos.le, nearest_neg, neg_sub_neg, neg_sub_neg, abs_sub_comm x, abs_sub_comm x] at hnear
  · rw [nearest_zero, sub_zero, abs_zero]
    exact abs_nonneg _
  · rw [f.nearest_of_nonneg hpos.le]
    exact abs_nearestMagnitude_sub_le_of_denotes h hpos

/-- If another number is as near to an exact value as what this is rounded to, the rank of the latter is even. -/
theorem nearestRank_even_of_denotes (hbits : 0 < f.fractionBits) (h : b.Denotes w) (hx : x ≠ 0) (hne : w ≠ f.nearest x)
    (htie : |w - x| = |f.nearest x - x|) : f.nearestRank |x| % 2 = 0 := by
  apply nearestRank_even hbits
  rcases lt_or_gt_of_ne hx with hneg | hpos
  · have hpos := neg_pos.mpr hneg
    have hback : f.nearestMagnitude (-x) = -f.nearest x := by rw [← f.nearest_of_nonneg hpos.le, nearest_neg]
    rw [abs_of_neg hneg]
    refine roundHalfEven_even_of_denotes h.neg hpos ?_ ?_
    · rw [hback, ne_eq, neg_inj]
      exact hne
    · rw [hback, neg_sub_neg, neg_sub_neg, abs_sub_comm x, abs_sub_comm x, htie]
  · rw [f.nearest_of_nonneg hpos.le] at hne htie
    rw [abs_of_pos hpos]
    exact roundHalfEven_even_of_denotes h hpos hne htie

end Format

namespace Binary

variable {f : Format} {x : ℚ}

/-- A finite number is the nearest to an exact value: no finite number is nearer, and if one of another value is as near, its rank
is even. -/
structure IsNearest (a : Binary f) (x : ℚ) : Prop where
  isFinite : a.isFinite = true
  least : ∀ b : Binary f, b.isFinite = true → |a.value - x| ≤ |b.value - x|
  even : ∀ b : Binary f, b.isFinite = true → b.value ≠ a.value → |b.value - x| = |a.value - x| →
    ∃ negative rank, a = .finite negative rank ∧ rank.val % 2 = 0

/-- A number other than zero that fits is rounded to its nearest rank. -/
theorem exists_rank_of_round (negativeZero : Bool) (hx : x ≠ 0) (h : f.Fits x) :
    ∃ negative rank, round f negativeZero x = .finite negative rank ∧ rank.val = f.nearestRank |x| := by
  have hrank : f.nearestRank |x| < f.infinityRank :=
    (Format.nearestRank_lt_iff (abs_pos.mpr hx)).mpr (h.of_abs_le (abs_abs x).le)
  have habs : x.abs = |x| := by
    rcases le_total 0 x with hle | hle
    · rw [Rat.abs_of_nonneg hle, abs_of_nonneg hle]
    · rw [← Rat.abs_neg, Rat.abs_of_nonneg (neg_nonneg.mpr hle), abs_of_nonpos hle]
  refine ⟨decide (x < 0), ⟨f.nearestRank |x|, hrank⟩, ?_, rfl⟩
  rw [round, if_neg hx, ofMagnitude, habs, ofRank, dif_pos hrank]

/-- A number that fits is rounded to the nearest finite number. -/
theorem round_isNearest (hbits : 0 < f.fractionBits) (negativeZero : Bool) (h : f.Fits x) :
    (round f negativeZero x).IsNearest x := by
  obtain ⟨hfinite, hvalue⟩ := round_denotes negativeZero h
  refine ⟨hfinite, fun b hb => ?_, fun b hb hne htie => ?_⟩
  · rw [hvalue]
    exact Format.abs_nearest_sub_le_of_denotes (denotes_value hb) x
  · rw [hvalue] at hne htie
    have hx : x ≠ 0 := by
      rintro rfl
      rw [f.nearest_zero, sub_zero, sub_zero, abs_zero, abs_eq_zero] at htie
      exact hne (htie.trans f.nearest_zero.symm)
    obtain ⟨negative, rank, hround, hrank⟩ := exists_rank_of_round negativeZero hx h
    refine ⟨negative, rank, hround, ?_⟩
    rw [hrank]
    exact Format.nearestRank_even_of_denotes hbits (denotes_value hb) hx hne htie

end Binary

end StreamCharts
