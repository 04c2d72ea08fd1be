import Mathlib.Algebra.Order.Archimedean.Basic
import StreamCharts.Proofs.Binary.Nearest

/-!
# Operations by their exact values

A finite number denotes its exact value (`Binary.Denotes`). Each operation on finite numbers denotes the nearest number to the
exact result, provided that this one is rounded to a finite number (`Format.Fits`); the order of finite numbers is that of their
values, and the integer a number is cut to is read off its value. So a computation is followed by its exact values.
-/

namespace StreamCharts

namespace Format

variable (f : Format)

/-! ## Overflow -/

/-- The magnitude from which on numbers are rounded to infinity. -/
def limit : ℚ :=
  f.magnitude f.infinityRank

/-- A number is rounded to a finite one. -/
def Fits (x : ℚ) : Prop :=
  |f.nearest x| < f.limit

variable {f} {x y : ℚ}

/-- A number of no larger magnitude fits as well. -/
theorem Fits.of_abs_le (hy : f.Fits y) (h : |x| ≤ |y|) : f.Fits x := by
  unfold Fits at hy ⊢
  rw [f.abs_nearest] at hy ⊢
  exact (f.nearest_mono h).trans_lt hy

/-- A number between two that fit does so as well. -/
theorem Fits.of_between {z : ℚ} (hx : f.Fits x) (hz : f.Fits z) (hxy : x ≤ y) (hyz : y ≤ z) : f.Fits y := by
  have hlow := (abs_lt.mp hx).1.trans_le (f.nearest_mono hxy)
  exact abs_lt.mpr ⟨hlow, (f.nearest_mono hyz).trans_lt (abs_lt.mp hz).2⟩

/-- A format with a number that fits has finite numbers. -/
theorem Fits.infinityRank_pos (h : f.Fits x) : 0 < f.infinityRank := by
  have hpos : 0 < f.limit := (abs_nonneg _).trans_lt h
  by_contra hzero
  rw [limit, Nat.eq_zero_of_not_pos hzero, f.magnitude_zero] at hpos
  exact lt_irrefl _ hpos

/-- A positive number fits if its rank is that of a finite number. -/
theorem nearestRank_lt_iff (hx : 0 < x) : f.nearestRank x < f.infinityRank ↔ f.Fits x := by
  rw [Fits, f.abs_nearest, abs_of_pos hx, f.nearest_of_nonneg hx.le, ← f.magnitude_nearestRank hx, limit,
    f.magnitude_strictMono.lt_iff_lt]

/-! ## Integers -/

variable (f) in
/-- The integers of no more binary places than a significand has are numbers of the format. -/
structure HasIntegers : Prop where
  fine : f.minExponent ≤ 0
  wide : 2 * f.binade < f.limit

/-- Such an integer is rounded to itself. -/
theorem HasIntegers.nearest_eq (hf : f.HasIntegers) {n : ℤ} (hn : |n| ≤ 2 * f.binade) : f.nearest n = n :=
  f.nearest_intCast hf.fine hn

/-- Such an integer fits. -/
theorem HasIntegers.fits (hf : f.HasIntegers) {n : ℤ} (hn : |n| ≤ 2 * f.binade) : f.Fits n := by
  have hn' : |(n : ℚ)| ≤ 2 * f.binade := by exact_mod_cast hn
  rw [Fits, hf.nearest_eq hn]
  exact hn'.trans_lt hf.wide

/-! ## Numbers of 64 bits -/

/-- Numbers of 64 bits have 53 binary places. -/
theorem two_mul_binade_double : (2 * double.binade : ℚ) = 2 ^ 53 := by
  have heq : 2 * double.binade = 2 ^ 53 := by decide
  exact_mod_cast heq

/-- The limit of the numbers of 64 bits. -/
theorem limit_double : double.limit = 2 ^ (1024 : ℤ) := by
  have hrank : double.infinityRank = double.binade + 2046 * double.binade := by decide
  rw [limit, hrank, double.magnitude_add_mul (by omega) (Or.inr le_rfl), binade_eq, ← zpow_add₀ two_ne_zero]
  rfl

/-- The numbers of 64 bits have the integers up to `2 ^ 53`. -/
theorem hasIntegers_double : double.HasIntegers := by
  refine ⟨by decide, ?_⟩
  rw [two_mul_binade_double, limit_double, ← zpow_natCast]
  exact zpow_lt_zpow_right₀ one_lt_two (by decide)

/-- The smallest magnitude of 64 bits is that power of two. -/
theorem smallest_double : double.smallest = 2 ^ (-1074 : ℤ) :=
  rfl

/-- The smallest magnitude of 64 bits is smaller than most powers of two. -/
theorem smallest_double_le {n : ℕ} (h : n ≤ 1074) : double.smallest ≤ 1 / 2 ^ n := by
  rw [smallest_double, one_div, ← zpow_natCast, ← zpow_neg]
  exact zpow_le_zpow_right₀ one_le_two (by omega)

/-- A number is finite when rounded to 64 bits if it stays below the limit by more than half a unit. -/
theorem fits_of_lt_limit_sub {x : ℚ} (h : |x| < 2 ^ (1024 : ℤ) - 2 ^ (970 : ℤ)) : double.Fits x := by
  have hhalf : (2 : ℚ) ^ (971 : ℤ) / 2 = 2 ^ (970 : ℤ) := by
    rw [show (971 : ℤ) = 970 + 1 by decide, zpow_add_one₀ two_ne_zero, mul_div_cancel_right₀ _ two_ne_zero]
  have hunit : double.unit |x| ≤ 2 ^ (971 : ℤ) := by
    have hbinade : floorLog2 |x| < 1024 := by
      rcases (abs_nonneg x).eq_or_lt with hzero | hpos
      · rw [← hzero]
        decide
      · have hpower : (2 : ℚ) ^ floorLog2 |x| < 2 ^ (1024 : ℤ) :=
          (floorLog2_spec hpos).1.trans_lt (h.trans (sub_lt_self _ (by positivity)))
        exact (zpow_lt_zpow_iff_right₀ one_lt_two).mp hpower
    have hfraction : (double.fractionBits : ℤ) = 52 ∧ double.minExponent = -1074 := by decide
    refine zpow_le_zpow_right₀ one_le_two ?_
    rw [unitExponent_eq_max, hfraction.1, hfraction.2]
    omega
  have hnear : |double.nearest x - x| ≤ 2 ^ (970 : ℤ) := by
    rw [← hhalf]
    exact (double.abs_nearest_sub_le_unit x).trans (div_le_div_of_nonneg_right hunit two_pos.le)
  rw [Fits, limit_double]
  calc |double.nearest x| = |double.nearest x - x + x| := by rw [sub_add_cancel]
    _ ≤ |double.nearest x - x| + |x| := abs_add_le _ _
    _ ≤ 2 ^ (970 : ℤ) + |x| := by gcongr
    _ < 2 ^ (1024 : ℤ) := lt_sub_iff_add_lt'.mp h

/-- So it is unless it is very large. -/
theorem fits_double {x : ℚ} (h : |x| ≤ 3 * 2 ^ (1022 : ℤ)) : double.Fits x := by
  have hlimit : (2 : ℚ) ^ (1024 : ℤ) = 4 * 2 ^ (1022 : ℤ) := by
    rw [show (1024 : ℤ) = 2 + 1022 by decide, zpow_add₀ two_ne_zero]
    norm_num
  have hhalf : (2 : ℚ) ^ (970 : ℤ) < 2 ^ (1022 : ℤ) := zpow_lt_zpow_right₀ one_lt_two (by decide)
  apply fits_of_lt_limit_sub
  rw [lt_sub_iff_add_lt', hlimit]
  calc 2 ^ (970 : ℤ) + |x| < 2 ^ (1022 : ℤ) + 3 * 2 ^ (1022 : ℤ) := add_lt_add_of_lt_of_le hhalf h
    _ = 4 * 2 ^ (1022 : ℤ) := by ring

/-- So is one that does not exceed a power of two which is finite. -/
theorem fits_of_le_two_zpow {x : ℚ} {e : ℤ} (he : e ≤ 1023) (h : |x| ≤ 2 ^ e) : double.Fits x := by
  apply fits_double
  calc |x| ≤ 2 ^ e := h
    _ ≤ 2 ^ (1 + 1022 : ℤ) := zpow_le_zpow_right₀ one_le_two he
    _ = 2 * 2 ^ (1022 : ℤ) := by rw [zpow_add₀ two_ne_zero, zpow_one]
    _ ≤ 3 * 2 ^ (1022 : ℤ) := mul_le_mul_of_nonneg_right (by norm_num) (by positivity)

/-- The error of a number of 64 bits that is not too small is at most the `2 ^ -53`-th part of it. -/
theorem nearest_double_bounds {x : ℚ} (h : 2 ^ 52 * double.smallest ≤ x) :
    x - x / 2 ^ 53 ≤ double.nearest x ∧ double.nearest x ≤ x + x / 2 ^ 53 := by
  have hbinade : (double.binade : ℚ) = 2 ^ 52 := by linarith [two_mul_binade_double]
  have hsmallest := double.smallest_pos
  have hpos : 0 < x := lt_of_lt_of_le (by positivity) h
  have hnear := double.abs_nearest_sub_le (x := x) (by rwa [hbinade, abs_of_pos hpos])
  rw [abs_of_pos hpos, two_mul_binade_double, abs_le] at hnear
  constructor <;> linarith [hnear.1, hnear.2]

/-- The error of any number of 64 bits that is not negative is at most that part of it and half the smallest magnitude. -/
theorem nearest_double_bounds_add {x : ℚ} (h : 0 ≤ x) :
    x - x / 2 ^ 53 - double.smallest / 2 ≤ double.nearest x ∧ double.nearest x ≤ x + x / 2 ^ 53 + double.smallest / 2 := by
  have hnear := double.abs_nearest_sub_le_add x
  rw [abs_of_nonneg h, two_mul_binade_double, abs_le] at hnear
  constructor <;> linarith [hnear.1, hnear.2]

end Format

namespace Binary

variable {f : Format}

/-- The value of a positive number is its magnitude. -/
theorem value_positive (rank : Fin f.infinityRank) : (finite false rank).value = f.magnitude rank := rfl

/-- The value of a negative number is its magnitude below zero. -/
theorem value_negative (rank : Fin f.infinityRank) : (finite true rank).value = -f.magnitude rank := rfl

/-- Both zeros have the value zero. -/
theorem value_zero (negative : Bool) {rank : Fin f.infinityRank} (h : rank.val = 0) : (finite negative rank).value = 0 := by
  cases negative with
  | false => rw [value_positive, h, f.magnitude_zero]
  | true => rw [value_negative, h, f.magnitude_zero, neg_zero]

/-- A finite number of this exact value. -/
structure Denotes (a : Binary f) (x : ℚ) : Prop where
  isFinite : a.isFinite = true
  value : a.value = x

variable {a b : Binary f} {x y : ℚ}

/-! ## Values -/

/-- A finite number denotes its value. -/
theorem denotes_value (h : a.isFinite = true) : a.Denotes a.value :=
  ⟨h, rfl⟩

/-- What denotes a value is a sign and a rank. -/
theorem Denotes.eq_finite (h : a.Denotes x) :
    ∃ negative rank, a = .finite negative rank ∧ (finite negative rank).value = x := by
  obtain ⟨hfinite, hvalue⟩ := h
  cases a with
  | nan => exact nomatch hfinite
  | infinite negative => exact nomatch hfinite
  | finite negative rank => exact ⟨negative, rank, rfl, hvalue⟩

/-- The value of a number has no more units than two binades. -/
theorem Denotes.units (h : a.Denotes x) : ∃ k e : ℤ, |k| ≤ 2 * f.binade ∧ f.minExponent ≤ e ∧ x = k * 2 ^ e := by
  obtain ⟨negative, rank, rfl, rfl⟩ := h.eq_finite
  have hunits : f.significand rank ≤ 2 * f.binade := by
    rcases Nat.lt_or_ge rank f.binade with hlt | hge
    · rw [f.significand_of_lt hlt]
      omega
    · have hmod := Nat.mod_lt rank f.binade_pos
      rw [f.significand_of_le hge]
      omega
  have hexp : f.minExponent ≤ f.minExponent + f.doublings rank := by omega
  cases negative with
  | false =>
    refine ⟨f.significand rank, _, ?_, hexp, ?_⟩
    · rw [Nat.abs_cast]
      exact_mod_cast hunits
    · rw [value_positive, f.magnitude_eq, Int.cast_natCast]
  | true =>
    refine ⟨-f.significand rank, _, ?_, hexp, ?_⟩
    · rw [abs_neg, Nat.abs_cast]
      exact_mod_cast hunits
    · rw [value_negative, f.magnitude_eq, Int.cast_neg, Int.cast_natCast, neg_mul]

/-- The value of a number is a multiple of the smallest magnitude. -/
theorem Denotes.multiple (h : a.Denotes x) : ∃ n : ℤ, x = n * f.smallest := by
  obtain ⟨k, e, -, he, rfl⟩ := h.units
  obtain ⟨j, hj⟩ := Int.eq_ofNat_of_zero_le (sub_nonneg.mpr he)
  refine ⟨k * 2 ^ j, ?_⟩
  have hsplit : e = j + f.minExponent := by omega
  rw [Format.smallest, hsplit, zpow_add₀ two_ne_zero, zpow_natCast]
  push_cast
  ring

/-- The value of a number is rounded to itself. -/
theorem Denotes.nearest_eq (h : a.Denotes x) : f.nearest x = x := by
  obtain ⟨k, e, hk, he, rfl⟩ := h.units
  exact f.nearest_units hk he

/-- The value of a number is no larger than the largest magnitude. -/
theorem Denotes.abs_le_largest (h : a.Denotes x) : |x| ≤ f.magnitude (f.infinityRank - 1) := by
  obtain ⟨negative, rank, rfl, rfl⟩ := h.eq_finite
  have hle : f.magnitude rank ≤ f.magnitude (f.infinityRank - 1) :=
    f.magnitude_strictMono.monotone (Nat.le_sub_one_of_lt rank.isLt)
  have hnonneg : 0 ≤ f.magnitude rank := by
    rw [f.magnitude_eq]
    positivity
  cases negative with
  | false => rwa [value_positive, abs_of_nonneg hnonneg]
  | true => rwa [value_negative, abs_neg, abs_of_nonneg hnonneg]

/-- The value of a number stays below infinity. -/
theorem Denotes.abs_lt_limit (h : a.Denotes x) : |x| < f.limit := by
  obtain ⟨negative, rank, rfl, -⟩ := h.eq_finite
  exact h.abs_le_largest.trans_lt (f.magnitude_strictMono (Nat.sub_one_lt_of_lt rank.isLt))

/-- The value of a number fits. -/
theorem Denotes.fits (h : a.Denotes x) : f.Fits x := by
  rw [Format.Fits, h.nearest_eq]
  exact h.abs_lt_limit

/-- A number that fits is rounded to one that denotes the nearest number. -/
theorem round_denotes (negativeZero : Bool) (h : f.Fits x) : (round f negativeZero x).Denotes (f.nearest x) := by
  have hpositive {y : ℚ} (hy : 0 < y) (hfits : f.Fits y) (negative : Bool) :
      (ofMagnitude f negative y).Denotes (if negative then -f.nearest y else f.nearest y) := by
    have hrank := (Format.nearestRank_lt_iff hy).mpr hfits
    rw [ofMagnitude, ofRank, dif_pos hrank, f.nearest_of_nonneg hy.le, ← f.magnitude_nearestRank hy]
    exact ⟨rfl, rfl⟩
  rw [round]
  split
  · rename_i hzero
    rw [hzero, f.nearest_zero, ofRank, dif_pos h.infinityRank_pos]
    exact ⟨rfl, value_zero negativeZero rfl⟩
  · rename_i hne
    rcases lt_or_gt_of_ne hne with hneg | hpos
    · have habs : x.abs = -x := by rw [← Rat.abs_neg, Rat.abs_of_nonneg (neg_pos.mpr hneg).le]
      have hdenotes := hpositive (neg_pos.mpr hneg) (h.of_abs_le (abs_neg x).le) true
      rw [if_pos rfl, f.nearest_neg, neg_neg] at hdenotes
      rwa [decide_eq_true hneg, habs]
    · have habs : x.abs = x := Rat.abs_of_nonneg hpos.le
      rw [decide_eq_false hpos.not_gt, habs]
      exact hpositive hpos h false

/-- Only numbers that fit are rounded to finite ones. -/
theorem fits_of_isFinite_round {negativeZero : Bool} (h : (round f negativeZero x).isFinite = true) : f.Fits x := by
  have hrank {negative : Bool} {rank : ℕ} (h : (ofRank f negative rank).isFinite = true) : rank < f.infinityRank := by
    by_contra hge
    rw [ofRank, dif_neg hge] at h
    exact Bool.false_ne_true h
  rw [round] at h
  split at h
  · rename_i hzero
    rw [hzero, Format.Fits, f.nearest_zero, abs_zero, Format.limit, ← f.magnitude_zero]
    exact f.magnitude_strictMono (hrank h)
  · rename_i hne
    have habs : x.abs = |x| := by
      rcases le_total 0 x with hx | hx
      · rw [Rat.abs_of_nonneg hx, abs_of_nonneg hx]
      · rw [← Rat.abs_neg, Rat.abs_of_nonneg (neg_nonneg.mpr hx), abs_of_nonpos hx]
    rw [ofMagnitude, habs] at h
    have hfits := (Format.nearestRank_lt_iff (abs_pos.mpr hne)).mp (hrank h)
    exact hfits.of_abs_le (abs_abs x).ge

/-- A number other than zero is the only one of its value. -/
theorem Denotes.eq_round (h : a.Denotes x) (hx : x ≠ 0) : a = round f false x := by
  obtain ⟨negative, rank, rfl, rfl⟩ := h.eq_finite
  have hrank : rank.val ≠ 0 := fun hzero => hx (value_zero negative hzero)
  rw [round_value, if_neg hrank]

/-- An integer of so few binary places as a significand has is a number. -/
theorem ofInt_denotes (hf : f.HasIntegers) {n : ℤ} (hn : |n| ≤ 2 * f.binade) : (ofInt f n).Denotes n := by
  have hdenotes := round_denotes false (hf.fits hn)
  rwa [hf.nearest_eq hn] at hdenotes

/-- A literal of so few binary places denotes the number it is written as. -/
theorem ofNat_denotes (hf : f.HasIntegers) {n : ℕ} (hn : n ≤ 2 * f.binade) : (OfNat.ofNat n : Binary f).Denotes n := by
  have hint : |(n : ℤ)| ≤ 2 * f.binade := by
    rw [Nat.abs_cast]
    exact_mod_cast hn
  have hdenotes := ofInt_denotes hf hint
  rwa [ofInt, Int.cast_natCast] at hdenotes

/-! ## Arithmetic -/

/-- The number with the other sign denotes the other value. -/
theorem Denotes.neg (h : a.Denotes x) : (-a).Denotes (-x) := by
  obtain ⟨negative, rank, rfl, rfl⟩ := h.eq_finite
  cases negative with
  | false => exact ⟨rfl, rfl⟩
  | true => exact ⟨rfl, (neg_neg _).symm⟩

/-- A sum denotes the rounded sum. -/
theorem Denotes.add (ha : a.Denotes x) (hb : b.Denotes y) (h : f.Fits (x + y)) : (a + b).Denotes (f.nearest (x + y)) := by
  obtain ⟨s, i, rfl, rfl⟩ := ha.eq_finite
  obtain ⟨t, j, rfl, rfl⟩ := hb.eq_finite
  exact round_denotes _ h

/-- A difference denotes the rounded difference. -/
theorem Denotes.sub (ha : a.Denotes x) (hb : b.Denotes y) (h : f.Fits (x - y)) : (a - b).Denotes (f.nearest (x - y)) := by
  rw [sub_eq_add_neg] at h ⊢
  exact ha.add hb.neg h

/-- A finite difference is that of numbers whose exact difference fits. -/
theorem Denotes.fits_sub (ha : a.Denotes x) (hb : b.Denotes y) (h : (a - b).isFinite = true) : f.Fits (x - y) := by
  obtain ⟨s, i, rfl, rfl⟩ := ha.eq_finite
  obtain ⟨t, j, hneg, hvalue⟩ := hb.neg.eq_finite
  change (Binary.add (finite s i) (-b)).isFinite = true at h
  rw [hneg] at h
  have hfits := fits_of_isFinite_round h
  rwa [hvalue, ← sub_eq_add_neg] at hfits

/-- A product denotes the rounded product. -/
theorem Denotes.mul (ha : a.Denotes x) (hb : b.Denotes y) (h : f.Fits (x * y)) : (a * b).Denotes (f.nearest (x * y)) := by
  obtain ⟨s, i, rfl, rfl⟩ := ha.eq_finite
  obtain ⟨t, j, rfl, rfl⟩ := hb.eq_finite
  exact round_denotes _ h

/-- A finite product is that of numbers whose exact product fits. -/
theorem Denotes.fits_mul (ha : a.Denotes x) (hb : b.Denotes y) (h : (a * b).isFinite = true) : f.Fits (x * y) := by
  obtain ⟨s, i, rfl, rfl⟩ := ha.eq_finite
  obtain ⟨t, j, rfl, rfl⟩ := hb.eq_finite
  exact fits_of_isFinite_round h

/-- A quotient by a number other than zero denotes the rounded quotient. -/
theorem Denotes.div (ha : a.Denotes x) (hb : b.Denotes y) (hy : y ≠ 0) (h : f.Fits (x / y)) :
    (a / b).Denotes (f.nearest (x / y)) := by
  obtain ⟨s, i, rfl, rfl⟩ := ha.eq_finite
  obtain ⟨t, j, rfl, rfl⟩ := hb.eq_finite
  have hrank : j.val ≠ 0 := fun hzero => hy (value_zero t hzero)
  change (div (finite s i) (finite t j)).Denotes _
  rw [div, if_neg hrank]
  exact round_denotes _ h

/-! ## Order -/

/-- Finite numbers are ordered as their values. -/
theorem Denotes.le_iff (ha : a.Denotes x) (hb : b.Denotes y) : a.le b = true ↔ x ≤ y := by
  obtain ⟨s, i, rfl, rfl⟩ := ha.eq_finite
  obtain ⟨t, j, rfl, rfl⟩ := hb.eq_finite
  have hmono := f.magnitude_strictMono
  have hnonneg (rank : ℕ) : 0 ≤ f.magnitude rank := by
    rw [← f.magnitude_zero]
    exact hmono.monotone (Nat.zero_le rank)
  have hsum : f.magnitude i + f.magnitude j ≤ 0 ↔ i.val = 0 ∧ j.val = 0 := by
    constructor
    · intro h
      have hi : f.magnitude i = f.magnitude 0 := by rw [f.magnitude_zero]; linarith [hnonneg i, hnonneg j]
      have hj : f.magnitude j = f.magnitude 0 := by rw [f.magnitude_zero]; linarith [hnonneg i, hnonneg j]
      exact ⟨hmono.injective hi, hmono.injective hj⟩
    · rintro ⟨hi, hj⟩
      rw [hi, hj, f.magnitude_zero, add_zero]
  unfold le place?
  cases s with
  | false =>
    cases t with
    | false =>
      rw [value_positive, value_positive, hmono.le_iff_le]
      simp
    | true =>
      rw [value_positive, value_negative, le_neg_iff_add_nonpos_right, hsum]
      simp only [decide_eq_true_eq, Bool.false_eq_true, if_true, if_false]
      omega
  | true =>
    cases t with
    | false =>
      have hvalue : -f.magnitude i ≤ f.magnitude j := by linarith [hnonneg i, hnonneg j]
      rw [value_positive, value_negative]
      simp only [decide_eq_true_eq, Bool.false_eq_true, if_true, if_false, hvalue, iff_true]
      omega
    | true =>
      rw [value_negative, value_negative, neg_le_neg_iff, hmono.le_iff_le]
      simp

/-- Numbers of one value are the same in the order of numbers. -/
theorem Denotes.same (ha : a.Denotes x) (hb : b.Denotes x) : a.same b = true := by
  have hle := (ha.le_iff hb).mpr le_rfl
  have hge := (hb.le_iff ha).mpr le_rfl
  obtain ⟨s, i, rfl, -⟩ := ha.eq_finite
  obtain ⟨t, j, rfl, -⟩ := hb.eq_finite
  simp only [le, place?, decide_eq_true_eq] at hle hge
  simp only [Binary.same, place?, decide_eq_true_eq]
  exact le_antisymm hle hge

/-- A finite number does not exceed infinity. -/
theorem Denotes.le_infinite (h : a.Denotes x) : a.le (.infinite false) = true := by
  obtain ⟨s, i, rfl, -⟩ := h.eq_finite
  have hrank := i.isLt
  unfold le place?
  cases s <;> simp only [decide_eq_true_eq, Bool.false_eq_true, if_true, if_false] <;> omega

/-- The larger of two finite numbers denotes the larger value. -/
theorem Denotes.larger (ha : a.Denotes x) (hb : b.Denotes y) : (a.larger b).Denotes (max x y) := by
  have hle := ha.le_iff hb
  have hcases : a.larger b = if a.le b then b else a := by
    obtain ⟨s, i, rfl, -⟩ := ha.eq_finite
    obtain ⟨t, j, rfl, -⟩ := hb.eq_finite
    rfl
  rw [hcases]
  split
  · rename_i h
    rwa [max_eq_right (hle.mp h)]
  · rename_i h
    rwa [max_eq_left (not_le.mp (mt hle.mpr h)).le]

/-- The larger of infinity and a finite number is infinity. -/
theorem Denotes.larger_infinite (h : a.Denotes x) : (infinite false).larger a = infinite false := by
  obtain ⟨s, i, rfl, -⟩ := h.eq_finite
  have hrank := i.isLt
  have hle : (infinite false).le (finite s i) = false := by
    unfold le place?
    cases s <;> simp only [decide_eq_false_iff_not, Bool.false_eq_true, if_true, if_false] <;> omega
  simp [Binary.larger, isNaN, hle]

/-! ## Whole numbers -/

/-- The integers next to the value of a number are values of numbers: a number with a fraction has few binary places. -/
theorem Denotes.of_near (hf : f.HasIntegers) (h : a.Denotes x) {n : ℤ} (hn : |n - x| < 1) : f.nearest n = n ∧ f.Fits n := by
  obtain ⟨k, e, hk, he, hx⟩ := h.units
  rcases le_or_gt 0 e with hge | hlt
  · -- the value is an integer, and so it is the one next to it
    obtain ⟨j, rfl⟩ := Int.eq_ofNat_of_zero_le hge
    have hint : x = ((k * 2 ^ j : ℤ) : ℚ) := by
      rw [hx, zpow_natCast]
      push_cast
      rfl
    have heq : (n : ℚ) = x := by
      rw [hint] at hn ⊢
      have hn' : |n - k * 2 ^ j| < 1 := by exact_mod_cast hn
      rw [Int.abs_lt_one_iff, sub_eq_zero] at hn'
      rw [hn']
    rw [heq]
    exact ⟨h.nearest_eq, h.fits⟩
  · have hhalf : |x| ≤ f.binade := by
      have hpow : (2 : ℚ) ^ e ≤ 1 / 2 := by
        calc (2 : ℚ) ^ e ≤ 2 ^ (-1 : ℤ) := zpow_le_zpow_right₀ one_le_two (by omega)
          _ = 1 / 2 := by norm_num
      have hk' : |(k : ℚ)| ≤ 2 * f.binade := by exact_mod_cast hk
      rw [hx, abs_mul, abs_of_pos (show (0 : ℚ) < 2 ^ e by positivity)]
      calc |(k : ℚ)| * 2 ^ e ≤ 2 * f.binade * (1 / 2) := by gcongr
        _ = f.binade := by ring
    have hbound : |(n : ℚ)| < f.binade + 1 := by
      calc |(n : ℚ)| = |n - x + x| := by rw [sub_add_cancel]
        _ ≤ |n - x| + |x| := abs_add_le _ _
        _ < f.binade + 1 := by linarith
    have hint : |n| ≤ 2 * f.binade := by
      have hlt' : |n| < f.binade + 1 := by exact_mod_cast hbound
      have hb := f.binade_pos
      omega
    exact ⟨hf.nearest_eq hint, hf.fits hint⟩

/-- A number moved to an integer next to it denotes that integer. -/
theorem Denotes.toWhole (hf : f.HasIntegers) (h : a.Denotes x) (whole : ℚ → ℤ) (hnear : |whole x - x| < 1) :
    (a.toWhole whole).Denotes (whole x) := by
  obtain ⟨heq, hfits⟩ := h.of_near hf hnear
  obtain ⟨s, i, rfl, rfl⟩ := h.eq_finite
  have hdenotes := round_denotes s hfits
  rwa [heq] at hdenotes

/-- The smallest integer that is not smaller than a number, as the model writes it. -/
theorem ratCeil_eq (x : ℚ) : x.ceil = ⌈x⌉ := by
  apply le_antisymm
  · exact Rat.ceil_le_iff.mpr (Int.le_ceil x)
  · exact Int.ceil_le.mpr Rat.le_ceil

/-- An integer is cut to itself, but held within 64 bits. -/
theorem Denotes.toInt {n : ℤ} (h : a.Denotes n) : a.toInt = clampInt64 n := by
  obtain ⟨s, i, rfl, hvalue⟩ := h.eq_finite
  have hcut : (if (n : ℚ) < 0 then (n : ℚ).ceil else (n : ℚ).floor) = n := by
    rw [ratCeil_eq, Int.ceil_intCast]
    exact (ite_eq_left_iff.mpr fun _ => Rat.floor_intCast n)
  unfold Binary.toInt
  dsimp only
  rw [hvalue, hcut]

/-- The integers of 64 bits, as the model cuts to them. -/
theorem clampInt64_eq (n : ℤ) : clampInt64 n = max (-2 ^ 63) (min n (2 ^ 63 - 1)) := by
  have hmin : Int64.minValue.toInt = -2 ^ 63 := by decide
  have hmax : Int64.maxValue.toInt = 2 ^ 63 - 1 := by decide
  rw [clampInt64, hmin, hmax]
  split
  · omega
  · split <;> omega

/-- What a number is cut to is an integer of 64 bits. -/
theorem toInt_bounds (a : Binary f) : -2 ^ 63 ≤ a.toInt ∧ a.toInt ≤ 2 ^ 63 - 1 := by
  have hmin : Int64.minValue.toInt = -2 ^ 63 := by decide
  have hmax : Int64.maxValue.toInt = 2 ^ 63 - 1 := by decide
  unfold toInt
  split
  · omega
  · rw [hmin, hmax]
    split <;> omega
  · dsimp only
    rw [clampInt64_eq]
    omega

/-- The smallest integer that is not smaller than a number, cut to 64 bits. -/
theorem Denotes.toInt_ceil (hf : f.HasIntegers) (h : a.Denotes x) : a.ceil.toInt = clampInt64 ⌈x⌉ := by
  have hnear : |((x.ceil : ℤ) : ℚ) - x| < 1 := by
    rw [ratCeil_eq, abs_of_nonneg (sub_nonneg.mpr (Int.le_ceil x))]
    linarith [Int.ceil_lt_add_one x]
  rw [Binary.ceil, (h.toWhole hf Rat.ceil hnear).toInt, ratCeil_eq]

/-- The largest integer that is not larger than a number, cut to 64 bits. -/
theorem Denotes.toInt_floor (hf : f.HasIntegers) (h : a.Denotes x) : a.floor.toInt = clampInt64 ⌊x⌋ := by
  have hnear : |((⌊x⌋ : ℤ) : ℚ) - x| < 1 := by
    rw [abs_of_nonpos (sub_nonpos.mpr (Int.floor_le x))]
    linarith [Int.lt_floor_add_one x]
  exact (h.toWhole hf Rat.floor hnear).toInt

/-- A number that is an integer stays so when it is rounded to one. -/
theorem Denotes.roundHalfAway (hf : f.HasIntegers) {n : ℤ} (h : a.Denotes n) : a.roundHalfAway.Denotes n := by
  have hhalf (m : ℤ) : ((m : ℚ) + 1 / 2).floor = m := by
    have hfloor : ⌊(m : ℚ) + 1 / 2⌋ = m := Int.floor_eq_iff.mpr ⟨by linarith, by linarith⟩
    exact hfloor
  have hwhole : nearestWhole n = n := by
    rw [nearestWhole, ← Int.cast_neg, hhalf, hhalf, neg_neg, ite_self]
  have hround := h.toWhole hf nearestWhole (by rw [hwhole, sub_self, abs_zero]; exact one_pos)
  rwa [hwhole] at hround

end Binary

end StreamCharts
