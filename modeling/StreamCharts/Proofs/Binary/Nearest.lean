import Mathlib.Data.Rat.Floor
import Mathlib.Order.Monotone.Basic
import Mathlib.Tactic.Linarith
import Mathlib.Tactic.NormNum
import StreamCharts.Proofs.Binary.Rounding

/-!
# The nearest magnitude

`Format.nearest` is what an exact number is rounded to, as an exact number and without a largest magnitude: a whole number of the
units of its binade. It keeps the order of numbers (`Format.nearest_mono`), leaves a number alone that has few enough units
(`Format.nearest_units`), and is wrong by at most half a unit. That is a part of the number which depends on the format alone, for
numbers that are not too small (`Format.abs_nearest_sub_le`) and for the multiples of the smallest magnitude
(`Format.abs_nearest_sub_le_of_multiple`).
-/

namespace StreamCharts

/-! ## Whole numbers -/

/-- The nearest whole number of a non-negative number is the whole part of it or the one above, and no farther than one half. -/
theorem abs_roundHalfEven_sub_le {x : ℚ} (hx : 0 ≤ x) : |(roundHalfEven x : ℚ) - x| ≤ 1 / 2 := by
  have hfloor : ((x.floor.toNat : ℕ) : ℚ) = ⌊x⌋ := by
    exact_mod_cast Int.toNat_of_nonneg (Int.floor_nonneg.mpr hx)
  have hlow := Int.floor_le x
  have hhigh := Int.lt_floor_add_one x
  unfold roundHalfEven
  dsimp only
  rw [← hfloor] at hlow hhigh
  split
  · rw [abs_le]
    constructor <;> linarith
  · split
    · rw [abs_le]
      push_cast
      constructor <;> linarith
    · -- in the middle between two whole numbers either is as near
      have hparity : ((x.floor.toNat % 2 : ℕ) : ℚ) ≤ 1 := by
        exact_mod_cast Nat.lt_succ_iff.mp (Nat.mod_lt _ two_pos)
      have hnonneg : (0 : ℚ) ≤ ((x.floor.toNat % 2 : ℕ) : ℚ) := Nat.cast_nonneg _
      rw [abs_le]
      rw [Nat.cast_add]
      constructor <;> linarith

/-- A whole number that is not larger is not larger than the nearest one. -/
theorem le_roundHalfEven {n : ℕ} {x : ℚ} (h : (n : ℚ) ≤ x) : n ≤ roundHalfEven x := by
  have hnear := (abs_le.mp (abs_roundHalfEven_sub_le ((Nat.cast_nonneg n).trans h))).1
  by_contra hlt
  have hstep : (roundHalfEven x : ℚ) + 1 ≤ n := by exact_mod_cast not_le.mp hlt
  linarith

/-- A whole number that is not smaller is not smaller than the nearest one. -/
theorem roundHalfEven_le {n : ℕ} {x : ℚ} (hx : 0 ≤ x) (h : x ≤ n) : roundHalfEven x ≤ n := by
  have hnear := (abs_le.mp (abs_roundHalfEven_sub_le hx)).2
  by_contra hlt
  have hstep : (n : ℚ) + 1 ≤ roundHalfEven x := by exact_mod_cast not_le.mp hlt
  linarith

/-- The nearest whole numbers are ordered as the numbers are. -/
theorem roundHalfEven_mono {x y : ℚ} (hx : 0 ≤ x) (h : x ≤ y) : roundHalfEven x ≤ roundHalfEven y := by
  by_contra hlt
  have hstep : (roundHalfEven y : ℚ) + 1 ≤ roundHalfEven x := by exact_mod_cast not_le.mp hlt
  have hnear := (abs_le.mp (abs_roundHalfEven_sub_le hx)).2
  have hnear' := (abs_le.mp (abs_roundHalfEven_sub_le (hx.trans h))).1
  -- both are as far off as can be, so the numbers are one, and so are the nearest whole numbers
  have heq : x = y := by linarith
  subst heq
  exact hlt le_rfl

namespace Format

variable (f : Format)

/-! ## Units -/

/-- The unit in which a number is measured. -/
def unit (x : ℚ) : ℚ :=
  (2 : ℚ) ^ f.unitExponent x

/-- The smallest positive magnitude. -/
def smallest : ℚ :=
  (2 : ℚ) ^ f.minExponent

/-- A unit is positive. -/
theorem unit_pos (x : ℚ) : 0 < f.unit x := by
  unfold unit
  positivity

/-- The smallest positive magnitude is positive. -/
theorem smallest_pos : 0 < f.smallest := by
  unfold smallest
  positivity

/-- The exponent of a unit follows the binary logarithm, but no further than the smallest magnitude. -/
theorem unitExponent_eq_max (x : ℚ) : f.unitExponent x = max (floorLog2 x - f.fractionBits) f.minExponent := by
  unfold unitExponent
  dsimp only
  split
  · rw [max_eq_right (by omega)]
  · rw [max_eq_left (by omega)]

/-- The magnitudes that share one exponent are as many as a power of two. -/
theorem binade_eq : (f.binade : ℚ) = 2 ^ (f.fractionBits : ℤ) := by
  rw [zpow_natCast]
  exact_mod_cast rfl

/-- A positive number is less than two binades of its unit. -/
theorem lt_binade_mul_unit {x : ℚ} (hx : 0 < x) : x < 2 * f.binade * f.unit x := by
  have hexp : floorLog2 x + 1 ≤ 1 + f.fractionBits + f.unitExponent x := by
    rw [f.unitExponent_eq_max]
    omega
  calc x < 2 ^ (floorLog2 x + 1) := (floorLog2_spec hx).2
    _ ≤ 2 ^ (1 + f.fractionBits + f.unitExponent x) := zpow_le_zpow_right₀ one_le_two hexp
    _ = 2 * f.binade * f.unit x := by
      rw [unit, binade_eq, zpow_add₀ two_ne_zero, zpow_add₀ two_ne_zero, zpow_one]

/-- A positive number is a binade of its unit or more, unless the unit is the smallest. -/
theorem binade_mul_unit_le {x : ℚ} (hx : 0 < x) (h : f.unit x ≠ f.smallest) : f.binade * f.unit x ≤ x := by
  have hexp : f.fractionBits + f.unitExponent x = floorLog2 x := by
    have hne : f.unitExponent x ≠ f.minExponent := fun heq => h (by rw [unit, smallest, heq])
    rw [f.unitExponent_eq_max] at hne ⊢
    omega
  calc f.binade * f.unit x = 2 ^ floorLog2 x := by rw [unit, binade_eq, ← zpow_add₀ two_ne_zero, hexp]
    _ ≤ x := (floorLog2_spec hx).1

/-! ## The nearest magnitude -/

/-- The magnitude to which a non-negative number is rounded. -/
def nearestMagnitude (x : ℚ) : ℚ :=
  (roundHalfEven (x / f.unit x) : ℚ) * f.unit x

/-- What a number is rounded to, if there were no largest magnitude. -/
def nearest (x : ℚ) : ℚ :=
  if x < 0 then -f.nearestMagnitude (-x) else f.nearestMagnitude x

/-- A whole number of units, doubled so often that it is a rank of the same magnitude. -/
theorem magnitude_add_mul {k j : ℕ} (hk : k ≤ 2 * f.binade) (hj : j = 0 ∨ f.binade ≤ k) :
    f.magnitude (k + j * f.binade) = (k : ℚ) * 2 ^ (f.minExponent + j) := by
  have hb := f.binade_pos
  rcases Nat.lt_or_ge k f.binade with hlt | hge
  · have hj0 : j = 0 := hj.resolve_right (by omega)
    subst hj0
    rw [Nat.zero_mul, Nat.add_zero, magnitude, if_pos hlt, Nat.cast_zero, add_zero]
  · rw [magnitude_eq]
    rcases Nat.lt_or_ge k (2 * f.binade) with hlt | hge2
    · have hquot : (k + j * f.binade) / f.binade = 1 + j := by
        have hone : k / f.binade = 1 := Nat.div_eq_of_lt_le (by omega) (by omega)
        rw [Nat.add_mul_div_right _ _ hb, hone]
      rw [significand, doublings, hquot, Nat.add_sub_cancel_left, Nat.add_sub_cancel]
    · -- two whole binades are one binade of the next unit
      have hk2 : k = 2 * f.binade := Nat.le_antisymm hk hge2
      have hquot : (k + j * f.binade) / f.binade = j + 1 + 1 := by
        rw [hk2, ← Nat.add_mul, Nat.mul_div_cancel _ hb]
        omega
      have hunits : k + j * f.binade - (j + 1) * f.binade = f.binade := by
        rw [hk2, Nat.add_mul]
        omega
      rw [significand, doublings, hquot, Nat.add_sub_cancel, hunits, hk2]
      push_cast
      rw [← add_assoc, zpow_add₀ two_ne_zero _ 1, zpow_one]
      ring

/-- A larger rank has a larger magnitude. -/
theorem magnitude_strictMono : StrictMono f.magnitude := by
  apply strictMono_nat_of_lt_succ
  intro rank
  have hb := f.binade_pos
  have hunits : f.significand rank < 2 * f.binade ∧ (f.doublings rank = 0 ∨ f.binade ≤ f.significand rank) := by
    rcases Nat.lt_or_ge rank f.binade with hlt | hge
    · rw [f.significand_of_lt hlt, doublings, Nat.div_eq_of_lt hlt]
      omega
    · have hmod := Nat.mod_lt rank hb
      rw [f.significand_of_le hge]
      omega
  have hnext : rank + 1 = (f.significand rank + 1) + f.doublings rank * f.binade := by
    have hrank := f.significand_add rank
    omega
  rw [hnext, f.magnitude_add_mul hunits.1 (hunits.2.imp_right Nat.le_succ_of_le), magnitude_eq]
  refine mul_lt_mul_of_pos_right ?_ (by positivity)
  exact_mod_cast Nat.lt_succ_self _

/-- The magnitude of the nearest rank is the nearest magnitude. -/
theorem magnitude_nearestRank {x : ℚ} (hx : 0 < x) : f.magnitude (f.nearestRank x) = f.nearestMagnitude x := by
  have hmin : f.minExponent ≤ f.unitExponent x := by
    rw [f.unitExponent_eq_max]
    exact le_max_right _ _
  have hunit := f.unit_pos x
  have hbelow : roundHalfEven (x / f.unit x) ≤ 2 * f.binade := by
    apply roundHalfEven_le (by positivity)
    rw [div_le_iff₀ hunit]
    push_cast
    exact (f.lt_binade_mul_unit hx).le
  have habove : (f.unitExponent x - f.minExponent).toNat = 0 ∨ f.binade ≤ roundHalfEven (x / f.unit x) := by
    by_cases heq : f.unit x = f.smallest
    · left
      have hexp : f.unitExponent x = f.minExponent := zpow_right_injective₀ two_pos (by norm_num) heq
      omega
    · right
      apply le_roundHalfEven
      rw [le_div_iff₀ hunit]
      exact f.binade_mul_unit_le hx heq
  have hexp : f.minExponent + ((f.unitExponent x - f.minExponent).toNat : ℤ) = f.unitExponent x := by omega
  rw [nearestMagnitude, nearestRank, rankBy, ← unit, f.magnitude_add_mul hbelow habove, hexp, ← unit]

/-- Zero is the nearest magnitude to itself. -/
theorem nearestMagnitude_zero : f.nearestMagnitude 0 = 0 := by
  have hzero : roundHalfEven 0 = 0 := roundHalfEven_natCast 0
  rw [nearestMagnitude, zero_div, hzero, Nat.cast_zero, zero_mul]

/-- The nearest magnitude is no farther than half a unit. -/
theorem abs_nearestMagnitude_sub_le {x : ℚ} (hx : 0 ≤ x) : |f.nearestMagnitude x - x| ≤ f.unit x / 2 := by
  have hunit := f.unit_pos x
  have hnear := abs_roundHalfEven_sub_le (x := x / f.unit x) (by positivity)
  have hscale : f.nearestMagnitude x - x = ((roundHalfEven (x / f.unit x) : ℚ) - x / f.unit x) * f.unit x := by
    rw [nearestMagnitude, sub_mul, div_mul_cancel₀ _ hunit.ne']
  rw [hscale, abs_mul, abs_of_pos hunit]
  calc |(roundHalfEven (x / f.unit x) : ℚ) - x / f.unit x| * f.unit x
      ≤ 1 / 2 * f.unit x := mul_le_mul_of_nonneg_right hnear hunit.le
    _ = f.unit x / 2 := by ring

/-- A number of units that are multiples of its own one is a magnitude. -/
theorem nearestMagnitude_of_units {x : ℚ} {k : ℕ} {e : ℤ} (hx : x = k * 2 ^ e) (he : f.unitExponent x ≤ e) :
    f.nearestMagnitude x = x := by
  obtain ⟨n, hn⟩ := Int.eq_ofNat_of_zero_le (sub_nonneg.mpr he)
  have hquot : x / f.unit x = (k * 2 ^ n : ℕ) := by
    have hsplit : e = n + f.unitExponent x := by omega
    rw [div_eq_iff (f.unit_pos x).ne']
    conv_lhs => rw [hx, hsplit, zpow_add₀ two_ne_zero, zpow_natCast, ← unit]
    push_cast
    ring
  rw [nearestMagnitude, hquot, roundHalfEven_natCast, ← hquot, div_mul_cancel₀ _ (f.unit_pos x).ne']

/-- So few units as two binades are a magnitude. -/
theorem nearestMagnitude_units {k : ℕ} {e : ℤ} (hk : k ≤ 2 * f.binade) (he : f.minExponent ≤ e) :
    f.nearestMagnitude (k * 2 ^ e) = k * 2 ^ e := by
  -- fewer than two binades: the number is measured in a unit that is no larger
  have hfew {k : ℕ} {e : ℤ} (hk : k < 2 * f.binade) (he : f.minExponent ≤ e) :
      f.nearestMagnitude (k * 2 ^ e) = k * 2 ^ e := by
    rcases Nat.eq_zero_or_pos k with rfl | hpos
    · rw [Nat.cast_zero, zero_mul, nearestMagnitude_zero]
    · have hlog : k.log2 ≤ f.fractionBits := by
        have hbound : k < 2 ^ (f.fractionBits + 1) := by
          rw [Nat.pow_succ, Nat.mul_comm]
          exact hk
        exact Nat.lt_succ_iff.mp ((Nat.log2_lt hpos.ne').mpr hbound)
      apply f.nearestMagnitude_of_units rfl
      rw [f.unitExponent_eq_max, floorLog2_natCast_mul hpos.ne']
      omega
  rcases Nat.lt_or_ge k (2 * f.binade) with hlt | hge
  · exact hfew hlt he
  · have hdouble : (k : ℚ) * 2 ^ e = f.binade * 2 ^ (e + 1) := by
      rw [Nat.le_antisymm hk hge, zpow_add₀ two_ne_zero, zpow_one]
      push_cast
      ring
    have hb := f.binade_pos
    rw [hdouble, hfew (by omega) (by omega)]

/-- The nearest magnitudes are ordered as the numbers are. -/
theorem nearestMagnitude_mono {x y : ℚ} (hx : 0 ≤ x) (h : x ≤ y) : f.nearestMagnitude x ≤ f.nearestMagnitude y := by
  rcases hx.eq_or_lt with rfl | hpos
  · rw [nearestMagnitude_zero, nearestMagnitude]
    have hunit := f.unit_pos y
    positivity
  have hpos' : 0 < y := hpos.trans_le h
  have hlog : floorLog2 x ≤ floorLog2 y := by
    have hlt := (floorLog2_spec hpos).1.trans_lt (h.trans_lt (floorLog2_spec hpos').2)
    have hexp : floorLog2 x < floorLog2 y + 1 := (zpow_lt_zpow_iff_right₀ one_lt_two).mp hlt
    omega
  have hmax := f.unitExponent_eq_max x
  have hmax' := f.unitExponent_eq_max y
  rcases eq_or_lt_of_le (show f.unitExponent x ≤ f.unitExponent y by omega) with heq | hlt
  · -- one unit: the whole numbers of units are ordered
    have hunit : f.unit x = f.unit y := by rw [unit, unit, heq]
    rw [nearestMagnitude, nearestMagnitude, hunit]
    refine mul_le_mul_of_nonneg_right ?_ (f.unit_pos y).le
    have hpos := f.unit_pos y
    exact_mod_cast roundHalfEven_mono (by positivity) (div_le_div_of_nonneg_right h hpos.le)
  · -- a larger unit: the least number that is measured in it lies between the two
    obtain ⟨n, hn⟩ := Int.eq_ofNat_of_zero_le (show 0 ≤ f.unitExponent y - 1 - f.unitExponent x by omega)
    have hfirst : (f.binade : ℚ) * f.unit y = 2 * f.binade * 2 ^ n * f.unit x := by
      have hsplit : f.unitExponent y = 1 + n + f.unitExponent x := by omega
      rw [unit, hsplit, zpow_add₀ two_ne_zero, zpow_add₀ two_ne_zero, zpow_one, zpow_natCast, ← unit]
      ring
    have hbelow : f.nearestMagnitude x ≤ f.binade * f.unit y := by
      rw [hfirst, nearestMagnitude]
      refine mul_le_mul_of_nonneg_right ?_ (f.unit_pos x).le
      have hunits : x / f.unit x ≤ (2 * f.binade * 2 ^ n : ℕ) := by
        have hunit := f.unit_pos x
        have hdoubled : (1 : ℚ) ≤ 2 ^ n := one_le_pow₀ one_le_two
        rw [div_le_iff₀ hunit]
        push_cast
        calc x ≤ 2 * f.binade * 1 * f.unit x := by rw [mul_one]; exact (f.lt_binade_mul_unit hpos).le
          _ ≤ 2 * f.binade * 2 ^ n * f.unit x := by gcongr
      have hunit := f.unit_pos x
      exact_mod_cast roundHalfEven_le (by positivity) hunits
    have habove : f.binade * f.unit y ≤ f.nearestMagnitude y := by
      refine mul_le_mul_of_nonneg_right ?_ (f.unit_pos y).le
      have hunits : (f.binade : ℚ) ≤ y / f.unit y := by
        rw [le_div_iff₀ (f.unit_pos y)]
        apply f.binade_mul_unit_le hpos'
        intro hsmall
        have hexp : f.unitExponent y = f.minExponent := zpow_right_injective₀ two_pos (by norm_num) hsmall
        omega
      exact_mod_cast le_roundHalfEven hunits
    exact hbelow.trans habove

/-! ## Both signs -/

/-- A non-negative number is rounded as a magnitude. -/
theorem nearest_of_nonneg {x : ℚ} (h : 0 ≤ x) : f.nearest x = f.nearestMagnitude x := by
  rw [nearest, if_neg h.not_gt]

/-- Zero is rounded to zero. -/
@[simp]
theorem nearest_zero : f.nearest 0 = 0 := by
  rw [f.nearest_of_nonneg le_rfl, nearestMagnitude_zero]

/-- Numbers of both signs are rounded alike. -/
@[simp]
theorem nearest_neg (x : ℚ) : f.nearest (-x) = -f.nearest x := by
  rcases lt_trichotomy x 0 with hneg | rfl | hpos
  · have hpos : 0 ≤ -x := (neg_pos.mpr hneg).le
    rw [f.nearest_of_nonneg hpos, nearest, if_pos hneg, neg_neg]
  · rw [neg_zero, nearest_zero, neg_zero]
  · rw [f.nearest_of_nonneg hpos.le, nearest, if_pos (neg_neg_of_pos hpos), neg_neg]

/-- Rounding keeps the order of numbers. -/
theorem nearest_mono : Monotone f.nearest := by
  have hnonneg {x y : ℚ} (hx : 0 ≤ x) (h : x ≤ y) : f.nearest x ≤ f.nearest y := by
    rw [f.nearest_of_nonneg hx, f.nearest_of_nonneg (hx.trans h)]
    exact f.nearestMagnitude_mono hx h
  intro x y h
  rcases le_total 0 x with hx | hx
  · exact hnonneg hx h
  · have hleft : f.nearest x ≤ 0 := by
      have hneg := hnonneg le_rfl (neg_nonneg.mpr hx)
      rw [nearest_zero, nearest_neg] at hneg
      exact neg_nonneg.mp hneg
    rcases le_total 0 y with hy | hy
    · have hright := hnonneg le_rfl hy
      rw [nearest_zero] at hright
      exact hleft.trans hright
    · have hneg := hnonneg (neg_nonneg.mpr hy) (neg_le_neg h)
      rw [nearest_neg, nearest_neg] at hneg
      exact neg_le_neg_iff.mp hneg

/-- A non-negative number is rounded to a non-negative one. -/
theorem nearest_nonneg {x : ℚ} (h : 0 ≤ x) : 0 ≤ f.nearest x := by
  have hmono := f.nearest_mono h
  rwa [nearest_zero] at hmono

/-- The magnitude of what a number is rounded to is that of the number, rounded. -/
theorem abs_nearest (x : ℚ) : |f.nearest x| = f.nearest |x| := by
  rcases le_total 0 x with hx | hx
  · rw [abs_of_nonneg hx, abs_of_nonneg (f.nearest_nonneg hx)]
  · have hneg := f.nearest_nonneg (neg_nonneg.mpr hx)
    rw [abs_of_nonpos hx, nearest_neg, ← abs_neg, ← nearest_neg, abs_of_nonneg hneg, nearest_neg]

/-- So few units as two binades are not changed. -/
theorem nearest_units {k e : ℤ} (hk : |k| ≤ 2 * f.binade) (he : f.minExponent ≤ e) : f.nearest (k * 2 ^ e) = k * 2 ^ e := by
  have hpow : (0 : ℚ) ≤ 2 ^ e := by positivity
  obtain ⟨n, rfl | rfl⟩ := k.eq_nat_or_neg
  · rw [Int.cast_natCast, f.nearest_of_nonneg (by positivity)]
    exact f.nearestMagnitude_units (by rw [Nat.abs_cast] at hk; exact_mod_cast hk) he
  · rw [Int.cast_neg, Int.cast_natCast, neg_mul, nearest_neg, f.nearest_of_nonneg (by positivity)]
    rw [abs_neg, Nat.abs_cast] at hk
    rw [f.nearestMagnitude_units (by exact_mod_cast hk) he]

/-- A power of two is not changed. -/
theorem nearest_two_zpow {e : ℤ} (he : f.minExponent ≤ e) : f.nearest (2 ^ e) = 2 ^ e := by
  have hb := f.binade_pos
  have hunits := f.nearest_units (k := 1) (by rw [abs_one]; omega) he
  rwa [Int.cast_one, one_mul] at hunits

/-- An integer of so few binary places as a significand has is not changed, in a format that has whole numbers. -/
theorem nearest_intCast (hf : f.minExponent ≤ 0) {n : ℤ} (hn : |n| ≤ 2 * f.binade) : f.nearest n = n := by
  have hone : (n : ℚ) = n * 2 ^ (0 : ℤ) := by rw [zpow_zero, mul_one]
  conv_lhs => rw [hone]
  rw [f.nearest_units hn hf, ← hone]

/-- A natural number is rounded to an integer. -/
theorem nearest_natCast_isInt (n : ℕ) : ∃ m : ℤ, f.nearest n = m := by
  rw [f.nearest_of_nonneg n.cast_nonneg]
  rcases le_total (f.unitExponent n) 0 with hle | hge
  · exact ⟨n, f.nearestMagnitude_of_units (k := n) (e := 0) (by rw [zpow_zero, mul_one]) hle⟩
  · -- the unit is a whole number itself
    obtain ⟨j, hj⟩ := Int.eq_ofNat_of_zero_le hge
    exact ⟨roundHalfEven (n / f.unit n) * 2 ^ j, by rw [nearestMagnitude, unit, hj, zpow_natCast]; push_cast; rfl⟩

/-- So is any integer. -/
theorem nearest_intCast_isInt (n : ℤ) : ∃ m : ℤ, f.nearest n = m := by
  obtain ⟨k, rfl | rfl⟩ := n.eq_nat_or_neg
  · exact f.nearest_natCast_isInt k
  · obtain ⟨m, hm⟩ := f.nearest_natCast_isInt k
    exact ⟨-m, by rw [Int.cast_neg, Int.cast_natCast, nearest_neg, hm, Int.cast_neg]⟩

/-! ## The error -/

/-- The error is at most half a unit. -/
theorem abs_nearest_sub_le_unit (x : ℚ) : |f.nearest x - x| ≤ f.unit |x| / 2 := by
  rcases le_total 0 x with hx | hx
  · rw [f.nearest_of_nonneg hx, abs_of_nonneg hx]
    exact f.abs_nearestMagnitude_sub_le hx
  · have hneg := f.abs_nearestMagnitude_sub_le (neg_nonneg.mpr hx)
    rw [← f.nearest_of_nonneg (neg_nonneg.mpr hx), nearest_neg, ← neg_sub', abs_neg] at hneg
    rwa [abs_of_nonpos hx]

/-- A unit above the smallest is a part of the number. -/
theorem unit_le_div {x : ℚ} (hx : 0 < x) (h : f.unit x ≠ f.smallest) : f.unit x ≤ x / f.binade := by
  have hb : (0 : ℚ) < f.binade := by exact_mod_cast f.binade_pos
  rw [le_div_iff₀ hb, mul_comm]
  exact f.binade_mul_unit_le hx h

/-- The relative error of a number that is not too small is bounded. -/
theorem abs_nearest_sub_le {x : ℚ} (h : f.binade * f.smallest ≤ |x|) : |f.nearest x - x| ≤ |x| / (2 * f.binade) := by
  have hb : (0 : ℚ) < f.binade := by exact_mod_cast f.binade_pos
  have hsmallest := f.smallest_pos
  have hpos : 0 < |x| := lt_of_lt_of_le (by positivity) h
  have hunit : f.unit |x| ≤ |x| / f.binade := by
    by_cases heq : f.unit |x| = f.smallest
    · rwa [heq, le_div_iff₀ hb, mul_comm]
    · exact f.unit_le_div hpos heq
  calc |f.nearest x - x| ≤ f.unit |x| / 2 := f.abs_nearest_sub_le_unit x
    _ ≤ |x| / f.binade / 2 := by gcongr
    _ = |x| / (2 * f.binade) := by rw [div_div, mul_comm (f.binade : ℚ)]

/-- So is that of a multiple of the smallest magnitude. -/
theorem abs_nearest_sub_le_of_multiple (n : ℤ) :
    |f.nearest (n * f.smallest) - n * f.smallest| ≤ |n * f.smallest| / (2 * f.binade) := by
  have hb : (0 : ℚ) < f.binade := by exact_mod_cast f.binade_pos
  rcases le_total |n| (2 * f.binade) with hle | hge
  · rw [smallest, f.nearest_units hle le_rfl, sub_self, abs_zero]
    positivity
  · have hsmallest := f.smallest_pos
    apply f.abs_nearest_sub_le
    rw [abs_mul, abs_of_pos hsmallest]
    refine mul_le_mul_of_nonneg_right ?_ hsmallest.le
    have hge' : (2 * f.binade : ℚ) ≤ |(n : ℚ)| := by exact_mod_cast hge
    linarith

/-- The error of any number is bounded by a part of it and half the smallest magnitude. -/
theorem abs_nearest_sub_le_add (x : ℚ) : |f.nearest x - x| ≤ |x| / (2 * f.binade) + f.smallest / 2 := by
  have hb : (0 : ℚ) < f.binade := by exact_mod_cast f.binade_pos
  have hsmallest := f.smallest_pos
  by_cases heq : f.unit |x| = f.smallest
  · have hunit := f.abs_nearest_sub_le_unit x
    rw [heq] at hunit
    have hpart : 0 ≤ |x| / (2 * f.binade) := by positivity
    linarith
  · rcases (abs_nonneg x).eq_or_lt with hzero | hpos
    · rw [abs_eq_zero.mp hzero.symm, nearest_zero, sub_zero, abs_zero]
      positivity
    · have hunit := f.unit_le_div hpos heq
      have hhalf := f.abs_nearest_sub_le_unit x
      have hpart : |x| / f.binade / 2 = |x| / (2 * f.binade) := by rw [div_div, mul_comm (f.binade : ℚ)]
      linarith

end Format

end StreamCharts
