import Mathlib.Tactic.GCongr
import StreamCharts.Chart.Decade
import StreamCharts.Proofs.Binary.Operations

/-!
# Decades and powers of ten

The decimal logarithm encloses a number between two powers of ten (`floorLog10_spec`). The decade of a number may be the next one,
but only for numbers just below that power (`decadeOf_spec`). The powers of ten of the mathematical library are near to the exact
ones (`powerOfTen_near`), and they are integers where those are (`powerOfTen_isInt`). The smallest of them vanish (`powerOfTen_pos`,
`powerOfTen_eq_zero`).
-/

namespace StreamCharts

/-! ## The decimal logarithm -/

/-- The digits of a positive number count the powers of ten up to it. -/
theorem length_toDigits_bounds {n : ℕ} (hn : n ≠ 0) :
    (10 : ℚ) ^ ((Nat.toDigits 10 n).length - 1) ≤ n ∧ (n : ℚ) < 10 ^ ((Nat.toDigits 10 n).length - 1 + 1) := by
  have hlength : 0 < (Nat.toDigits 10 n).length := Nat.length_toDigits_pos
  have hhigh : n < 10 ^ (Nat.toDigits 10 n).length :=
    (Nat.length_toDigits_le_iff (by decide) hlength).mp le_rfl
  constructor
  · -- with one digit less the number would be smaller
    rcases Nat.eq_zero_or_pos ((Nat.toDigits 10 n).length - 1) with hone | hmore
    · rw [hone, pow_zero]
      exact_mod_cast Nat.one_le_iff_ne_zero.mpr hn
    · have hlow : 10 ^ ((Nat.toDigits 10 n).length - 1) ≤ n := by
        by_contra hlt
        have hshort := (Nat.length_toDigits_le_iff (by decide) hmore).mpr (not_le.mp hlt)
        omega
      exact_mod_cast hlow
  · rw [Nat.sub_add_cancel hlength]
    exact_mod_cast hhigh

/-- The power of ten at the decimal logarithm does not exceed a positive number, and the next one does. -/
theorem floorLog10_spec {x : ℚ} (hx : 0 < x) : (10 : ℚ) ^ floorLog10 x ≤ x ∧ x < (10 : ℚ) ^ (floorLog10 x + 1) := by
  obtain ⟨hpos, hratio⟩ := num_div_den_toNat hx
  obtain ⟨hlow, hhigh⟩ :=
    ratio_power_bounds (by norm_num) (length_toDigits_bounds hpos.ne') (length_toDigits_bounds x.den_ne_zero)
  have hguess : (((Nat.toDigits 10 x.num.toNat).length - 1 : ℕ) : ℤ) - ((Nat.toDigits 10 x.den).length - 1 : ℕ) =
      (Nat.toDigits 10 x.num.toNat).length - (Nat.toDigits 10 x.den).length := by
    have hnum : 0 < (Nat.toDigits 10 x.num.toNat).length := Nat.length_toDigits_pos
    have hden : 0 < (Nat.toDigits 10 x.den).length := Nat.length_toDigits_pos
    omega
  rw [hratio, hguess] at hlow hhigh
  unfold floorLog10
  dsimp only
  split
  · rename_i hless
    exact ⟨hlow.le, by rwa [sub_add_cancel]⟩
  · rename_i hless
    exact ⟨not_lt.mp hless, hhigh⟩

/-- The decade of a number reaches above it, and starts no more than the `2 ^ -42`-th part above it. -/
theorem decadeOf_spec {x : ℚ} (hx : 0 < x) :
    (10 : ℚ) ^ decadeOf x * (1 - 2 ^ (-42 : ℤ)) ≤ x ∧ x < (10 : ℚ) ^ (decadeOf x + 1) := by
  obtain ⟨hlow, hhigh⟩ := floorLog10_spec hx
  unfold decadeOf
  dsimp only
  split
  · rename_i hnext
    rw [Bool.and_eq_true, decide_eq_true_eq] at hnext
    refine ⟨hnext.1, hhigh.trans ?_⟩
    exact zpow_lt_zpow_right₀ (by norm_num) (by omega)
  · rw [add_sub_cancel_right]
    refine ⟨le_trans ?_ hlow, hhigh⟩
    have hpow : (0 : ℚ) < 10 ^ floorLog10 x := by positivity
    have hpart : 1 - (2 : ℚ) ^ (-42 : ℤ) ≤ 1 := by norm_num
    exact mul_le_of_le_one_right hpow.le hpart

/-- A number that stays below a power of ten, with some room, is of a lower decade. -/
theorem decadeOf_lt {x : ℚ} (hx : 0 < x) {e : ℤ} (h : x < 10 ^ e * (1 - 2 ^ (-42 : ℤ))) : decadeOf x < e := by
  by_contra hge
  have hpow : (10 : ℚ) ^ e ≤ 10 ^ decadeOf x := zpow_le_zpow_right₀ (by norm_num) (not_lt.mp hge)
  have hpart : (0 : ℚ) ≤ 1 - 2 ^ (-42 : ℤ) := by norm_num
  have hscaled := mul_le_mul_of_nonneg_right hpow hpart
  exact lt_irrefl _ (h.trans_le (hscaled.trans (decadeOf_spec hx).1))

/-- A number that is no smaller than a power of ten is not of a lower decade. -/
theorem le_decadeOf {x : ℚ} {e : ℤ} (h : 10 ^ e ≤ x) : e ≤ decadeOf x := by
  have hx : 0 < x := lt_of_lt_of_le (by positivity) h
  have hlt := h.trans_lt (decadeOf_spec hx).2
  have hexp : e < decadeOf x + 1 := (zpow_lt_zpow_iff_right₀ (by norm_num)).mp hlt
  omega

/-- Where the powers of ten stand at both ends of the numbers of 64 bits. Those at the upper end are compared with powers of two, with
some room. At the lower end one lies between two and three of the smallest units, and the next vanishes when rounded. -/
theorem ten_zpow_bounds :
    (2 : ℚ) ^ (1023 : ℤ) < 10 ^ (308 : ℤ) * (1 - 2 ^ (-42 : ℤ)) ∧ (2 : ℚ) ^ (1024 : ℤ) < 10 ^ (309 : ℤ) * (1 - 2 ^ (-42 : ℤ)) ∧
      (10 : ℚ) ^ (308 : ℤ) * (1 + 1 / 2 ^ 51) ≤ 3 * 2 ^ (1022 : ℤ) ∧ (10 : ℚ) ^ (288 : ℤ) * (1 + 1 / 2 ^ 51) ≤ 2 ^ (960 : ℤ) ∧
      2 * Format.double.smallest < 10 ^ (-323 : ℤ) * (1 - 2 ^ (-42 : ℤ)) ∧ (10 : ℚ) ^ (-323 : ℤ) ≤ 3 * Format.double.smallest ∧
      Format.double.nearest ((10 : ℚ) ^ (-324 : ℤ)) = 0 := by
  decide +kernel

/-- The decade of a number up to `2 ^ 1023` is one whose power of ten, and the next, are finite. -/
theorem decadeOf_le {x : ℚ} (hx : 0 < x) (h : x ≤ 2 ^ (1023 : ℤ)) : decadeOf x ≤ 307 :=
  Int.le_of_lt_add_one (decadeOf_lt hx (h.trans_lt ten_zpow_bounds.1))

/-- The decade of a number below the limit of 64 bits is one whose power of ten is finite. -/
theorem decadeOf_le_of_lt_limit {x : ℚ} (hx : 0 < x) (h : x < Format.double.limit) : decadeOf x ≤ 308 := by
  obtain ⟨-, hlimit, -⟩ := ten_zpow_bounds
  rw [Format.limit_double] at h
  exact Int.le_of_lt_add_one (decadeOf_lt hx (h.trans hlimit))

/-! ## Powers of ten -/

/-- But for two exponents a power of ten of the mathematical library is the number nearest to the exact one. -/
theorem powerOfTen_denotes {n : ℤ} (hn : n ≤ 308) (hraised : n ∉ raisedExponents) :
    (powerOfTen n).Denotes (Format.double.nearest (10 ^ n)) := by
  have hpos : (0 : ℚ) < 10 ^ n := by positivity
  have hround : powerOfTen n = Binary.round .double false (10 ^ n) := by
    have habs : Rat.abs ((10 : ℚ) ^ n) = 10 ^ n := Rat.abs_of_nonneg hpos.le
    have hcontains : raisedExponents.contains n = false := by rwa [List.contains_eq_mem, decide_eq_false_iff_not]
    rw [Binary.round, if_neg hpos.ne', habs, decide_eq_false hpos.not_gt, Binary.ofMagnitude]
    unfold powerOfTen
    dsimp only
    rw [hcontains, if_neg Bool.false_ne_true]
  obtain ⟨-, -, hlast, -⟩ := ten_zpow_bounds
  rw [hround]
  apply Binary.round_denotes
  apply Format.fits_double
  rw [abs_of_pos hpos]
  calc (10 : ℚ) ^ n ≤ 10 ^ (308 : ℤ) := zpow_le_zpow_right₀ (by norm_num) hn
    _ ≤ 10 ^ (308 : ℤ) * (1 + 1 / 2 ^ 51) := le_mul_of_one_le_right (by positivity) (by norm_num)
    _ ≤ 3 * 2 ^ (1022 : ℤ) := hlast

/-- Those two are not below one. -/
theorem notMem_raisedExponents {n : ℤ} (hn : n < 0) : n ∉ raisedExponents := by
  simp only [raisedExponents, List.mem_cons, List.not_mem_nil, or_false]
  omega

/-- For those two it is near as well, and an integer. -/
theorem raised_powerOfTen {n : ℤ} (hraised : n ∈ raisedExponents) :
    (powerOfTen n).isFinite = true ∧ (powerOfTen n).value.den = 1 ∧ 0 ≤ (powerOfTen n).value ∧
      |(powerOfTen n).value - 10 ^ n| ≤ 10 ^ n / 2 ^ 52 := by
  have hcases : n = 23 ∨ n = 210 := by simpa [raisedExponents] using hraised
  rcases hcases with rfl | rfl <;> decide +kernel

/-- A power of ten that is not too large is finite. -/
theorem powerOfTen_isFinite {n : ℤ} (hn : n ≤ 308) : (powerOfTen n).isFinite = true := by
  by_cases hraised : n ∈ raisedExponents
  · obtain ⟨hfinite, -⟩ := raised_powerOfTen hraised
    exact hfinite
  · exact (powerOfTen_denotes hn hraised).isFinite

/-- The power of ten of the mathematical library is not negative. -/
theorem powerOfTen_nonneg {n : ℤ} (hn : n ≤ 308) : 0 ≤ (powerOfTen n).value := by
  by_cases hraised : n ∈ raisedExponents
  · obtain ⟨-, -, hnonneg, -⟩ := raised_powerOfTen hraised
    exact hnonneg
  · rw [(powerOfTen_denotes hn hraised).value]
    exact Format.double.nearest_nonneg (by positivity)

/-- The power of ten of the mathematical library is near to the exact one. -/
theorem powerOfTen_near {n : ℤ} (hn : n ≤ 308) :
    |(powerOfTen n).value - 10 ^ n| ≤ 10 ^ n / 2 ^ 52 + Format.double.smallest / 2 := by
  have hsmallest := Format.double.smallest_pos
  have hpos : (0 : ℚ) < 10 ^ n := by positivity
  by_cases hraised : n ∈ raisedExponents
  · obtain ⟨-, -, -, hclose⟩ := raised_powerOfTen hraised
    linarith
  · have hnear := Format.double.abs_nearest_sub_le_add (10 ^ n)
    rw [abs_of_pos hpos, Format.two_mul_binade_double] at hnear
    rw [(powerOfTen_denotes hn hraised).value]
    linarith

/-- Powers of ten down to about two of the smallest units do not vanish. -/
theorem powerOfTen_pos {n : ℤ} (hlow : -323 ≤ n) (hn : n ≤ 308) : 0 < (powerOfTen n).value := by
  obtain ⟨-, -, -, -, htwo, -⟩ := ten_zpow_bounds
  have hpow : (10 : ℚ) ^ (-323 : ℤ) ≤ 10 ^ n := zpow_le_zpow_right₀ (by norm_num) hlow
  have hpart : (10 : ℚ) ^ n * (1 - 2 ^ (-42 : ℤ)) ≤ 10 ^ n := mul_le_of_le_one_right (by positivity) (by norm_num)
  have hunits : 2 * Format.double.smallest < 10 ^ n :=
    (htwo.trans_le (mul_le_mul_of_nonneg_right hpow (by norm_num))).trans_le hpart
  have hsmallest := Format.double.smallest_pos
  have hnear := (abs_le.mp (powerOfTen_near hn)).1
  linarith

/-- Powers of ten below half of the smallest unit vanish. -/
theorem powerOfTen_eq_zero {n : ℤ} (hn : n ≤ -324) : (powerOfTen n).value = 0 := by
  have hpow : (10 : ℚ) ^ n ≤ 10 ^ (-324 : ℤ) := zpow_le_zpow_right₀ (by norm_num) hn
  apply le_antisymm
  · obtain ⟨-, -, -, -, -, -, hzero⟩ := ten_zpow_bounds
    rw [(powerOfTen_denotes (by omega) (notMem_raisedExponents (by omega))).value, ← hzero]
    exact Format.double.nearest_mono hpow
  · exact powerOfTen_nonneg (by omega)

/-- A power of ten that is an integer is one in the mathematical library. -/
theorem powerOfTen_isInt {n : ℤ} (h0 : 0 ≤ n) (hn : n ≤ 308) : ∃ m : ℕ, (powerOfTen n).value = m := by
  have hint : ∃ m : ℤ, (powerOfTen n).value = m := by
    by_cases hraised : n ∈ raisedExponents
    · obtain ⟨-, hden, -, -⟩ := raised_powerOfTen hraised
      exact ⟨_, (Rat.coe_int_num_of_den_eq_one hden).symm⟩
    · obtain ⟨k, rfl⟩ := Int.eq_ofNat_of_zero_le h0
      have hpow : (10 : ℚ) ^ (k : ℤ) = (10 ^ k : ℕ) := by
        rw [zpow_natCast]
        exact_mod_cast rfl
      rw [(powerOfTen_denotes hn hraised).value, hpow]
      exact Format.double.nearest_natCast_isInt _
  obtain ⟨m, hm⟩ := hint
  have hnonneg := powerOfTen_nonneg hn
  rw [hm] at hnonneg
  obtain ⟨k, rfl⟩ := Int.eq_ofNat_of_zero_le (by exact_mod_cast hnonneg)
  exact ⟨k, by rw [hm, Int.cast_natCast]⟩

/-- A power of ten below one is at most a tenth. -/
theorem powerOfTen_le_tenth {n : ℤ} (hn : n < 0) : (powerOfTen n).value ≤ Format.double.nearest (10 ^ (-1 : ℤ)) := by
  rw [(powerOfTen_denotes (by omega) (notMem_raisedExponents hn)).value]
  exact Format.double.nearest_mono (zpow_le_zpow_right₀ (by norm_num) (by omega))

end StreamCharts
