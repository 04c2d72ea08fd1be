import Mathlib.Algebra.Order.Field.Power
import Mathlib.Algebra.Order.Field.Rat
import Mathlib.Data.Rat.Cast.Order
import Mathlib.Tactic.FieldSimp
import Mathlib.Tactic.Positivity
import Mathlib.Tactic.Ring
import StreamCharts.Binary.Arithmetic

/-!
# Rounding leaves numbers as they are

The exact value of a finite number is rounded to the number itself; of the two zeros the sign is lost. The steps: `floorLog2` is
the binary logarithm (`floorLog2_spec`), a magnitude is its significand times its unit (`Format.magnitude_eq`), and so the unit
that rounding chooses is the one the magnitude was made with (`Format.nearestRank_magnitude`).
-/

namespace StreamCharts

/-! ## The binary logarithm -/

/-- A ratio of naturals lies between the powers that its parts suggest. -/
theorem ratio_power_bounds {c : ℚ} (hc : 0 < c) {a b i j : ℕ} (ha : c ^ i ≤ a ∧ (a : ℚ) < c ^ (i + 1))
    (hb : c ^ j ≤ b ∧ (b : ℚ) < c ^ (j + 1)) :
    c ^ ((i : Int) - j - 1) < (a : ℚ) / b ∧ (a : ℚ) / b < c ^ ((i : Int) - j + 1) := by
  have hbpos : (0 : ℚ) < b := lt_of_lt_of_le (by positivity) hb.1
  have hlow : c ^ ((i : Int) - j - 1) * c ^ (j + 1) = c ^ i := by
    rw [← zpow_natCast, ← zpow_natCast, ← zpow_add₀ hc.ne']
    congr 1
    push_cast
    ring
  have hhigh : c ^ ((i : Int) - j + 1) * c ^ j = c ^ (i + 1) := by
    rw [← zpow_natCast, ← zpow_natCast, ← zpow_add₀ hc.ne']
    congr 1
    push_cast
    ring
  constructor
  · rw [lt_div_iff₀ hbpos]
    calc c ^ ((i : Int) - j - 1) * b < c ^ ((i : Int) - j - 1) * c ^ (j + 1) := mul_lt_mul_of_pos_left hb.2 (by positivity)
      _ = c ^ i := hlow
      _ ≤ a := ha.1
  · rw [div_lt_iff₀ hbpos]
    calc (a : ℚ) < c ^ (i + 1) := ha.2
      _ = c ^ ((i : Int) - j + 1) * c ^ j := hhigh.symm
      _ ≤ c ^ ((i : Int) - j + 1) * b := mul_le_mul_of_nonneg_left hb.1 (by positivity)

/-- A positive number as the ratio of two positive naturals. -/
theorem num_div_den_toNat {x : ℚ} (hx : 0 < x) : 0 < x.num.toNat ∧ (x.num.toNat : ℚ) / x.den = x := by
  have hpos : 0 < x.num := Rat.num_pos.mpr hx
  have hnum : (x.num.toNat : ℚ) = x.num := by exact_mod_cast Int.toNat_of_nonneg hpos.le
  exact ⟨by omega, by rw [hnum, Rat.num_div_den]⟩

/-- The power of two at the binary logarithm does not exceed a positive number, and the next one does. -/
theorem floorLog2_spec {x : ℚ} (hx : 0 < x) : (2 : ℚ) ^ floorLog2 x ≤ x ∧ x < (2 : ℚ) ^ (floorLog2 x + 1) := by
  have hlog {n : ℕ} (hn : n ≠ 0) : (2 : ℚ) ^ n.log2 ≤ n ∧ (n : ℚ) < 2 ^ (n.log2 + 1) :=
    ⟨by exact_mod_cast Nat.log2_self_le hn, by exact_mod_cast Nat.lt_log2_self⟩
  obtain ⟨hpos, hratio⟩ := num_div_den_toNat hx
  obtain ⟨hlow, hhigh⟩ := ratio_power_bounds two_pos (hlog hpos.ne') (hlog x.den_ne_zero)
  rw [hratio] at hlow hhigh
  unfold floorLog2
  dsimp only
  split
  · rename_i hguess
    exact ⟨hlow.le, by rwa [sub_add_cancel]⟩
  · rename_i hguess
    exact ⟨not_lt.mp hguess, hhigh⟩

/-- The binary logarithm is the only exponent whose powers of two enclose a number. -/
theorem floorLog2_eq {x : ℚ} {e : Int} (hlow : (2 : ℚ) ^ e ≤ x) (hhigh : x < (2 : ℚ) ^ (e + 1)) : floorLog2 x = e := by
  have hx : 0 < x := lt_of_lt_of_le (by positivity) hlow
  obtain ⟨hlow', hhigh'⟩ := floorLog2_spec hx
  have h1 : floorLog2 x < e + 1 := (zpow_lt_zpow_iff_right₀ one_lt_two).mp (lt_of_le_of_lt hlow' hhigh)
  have h2 : e < floorLog2 x + 1 := (zpow_lt_zpow_iff_right₀ one_lt_two).mp (lt_of_le_of_lt hlow hhigh')
  omega

/-- The binary logarithm of a natural number times a power of two. -/
theorem floorLog2_natCast_mul {m : Nat} (hm : m ≠ 0) (e : Int) : floorLog2 ((m : ℚ) * (2 : ℚ) ^ e) = m.log2 + e := by
  have hm1 : (2 : ℚ) ^ m.log2 ≤ m := by exact_mod_cast Nat.log2_self_le hm
  have hm2 : (m : ℚ) < (2 : ℚ) ^ (m.log2 + 1) := by exact_mod_cast Nat.lt_log2_self
  have hpow : (0 : ℚ) < 2 ^ e := by positivity
  apply floorLog2_eq
  · rw [zpow_add₀ two_ne_zero, zpow_natCast]
    exact mul_le_mul_of_nonneg_right hm1 hpow.le
  · rw [add_right_comm, zpow_add₀ two_ne_zero, ← Nat.cast_succ, zpow_natCast]
    exact mul_lt_mul_of_pos_right hm2 hpow

/-- A natural number is the whole number nearest to itself. -/
theorem roundHalfEven_natCast (n : Nat) : roundHalfEven (n : ℚ) = n := by
  have hfloor : (n : ℚ).floor = n := Rat.floor_intCast n
  simp [roundHalfEven, hfloor]

namespace Format

variable (f : Format)

/-! ## Magnitudes -/

/-- A format has magnitudes in each binade. -/
theorem binade_pos : 0 < f.binade :=
  Nat.pow_pos (by decide)

/-- The number of doublings of the unit of a rank. -/
def doublings (rank : Nat) : Nat :=
  rank / f.binade - 1

/-- The number of units of a rank. -/
def significand (rank : Nat) : Nat :=
  rank - f.doublings rank * f.binade

/-- Behind the first binade the units of a rank are a whole binade and what the rank has beyond it. -/
theorem significand_of_le {rank : Nat} (h : f.binade ≤ rank) : f.significand rank = f.binade + rank % f.binade := by
  have hquot : 1 ≤ rank / f.binade := Nat.div_pos h f.binade_pos
  have hdiv := Nat.div_add_mod rank f.binade
  obtain ⟨q, hq⟩ := Nat.exists_eq_add_of_le hquot
  rw [significand, doublings, hq, Nat.add_sub_cancel_left]
  rw [hq, Nat.mul_add, Nat.mul_one, Nat.mul_comm] at hdiv
  omega

/-- In the first binade a rank is its own number of units. -/
theorem significand_of_lt {rank : Nat} (h : rank < f.binade) : f.significand rank = rank := by
  simp [significand, doublings, Nat.div_eq_of_lt h]

/-- A rank is made of its units and its doublings. -/
theorem significand_add (rank : Nat) : f.significand rank + f.doublings rank * f.binade = rank := by
  have hle : f.doublings rank * f.binade ≤ rank :=
    (Nat.mul_le_mul_right _ (Nat.sub_le _ _)).trans (Nat.div_mul_le_self rank f.binade)
  rw [significand, Nat.sub_add_cancel hle]

/-- A magnitude is so many units, each doubled so many times. -/
theorem magnitude_eq (rank : Nat) :
    f.magnitude rank = (f.significand rank : ℚ) * (2 : ℚ) ^ (f.minExponent + f.doublings rank) := by
  unfold magnitude
  split
  · rename_i h
    rw [f.significand_of_lt h, doublings, Nat.div_eq_of_lt h]
    simp
  · rename_i h
    rw [not_lt] at h
    have hquot : 1 ≤ rank / f.binade := Nat.div_pos h f.binade_pos
    rw [f.significand_of_le h, doublings]
    congr 2
    push_cast [hquot]
    ring

/-- Only rank 0 has no unit. -/
theorem significand_pos {rank : Nat} (h : 0 < rank) : 0 < f.significand rank := by
  rcases Nat.lt_or_ge rank f.binade with hlt | hge
  · rwa [f.significand_of_lt hlt]
  · rw [f.significand_of_le hge]
    exact Nat.add_pos_left f.binade_pos _

/-- Only rank 0 has magnitude 0. -/
theorem magnitude_pos {rank : Nat} (h : 0 < rank) : 0 < f.magnitude rank := by
  have hunits : (0 : ℚ) < f.significand rank := by exact_mod_cast f.significand_pos h
  rw [magnitude_eq]
  positivity

/-- Rank 0 has magnitude 0. -/
theorem magnitude_zero : f.magnitude 0 = 0 := by
  simp [magnitude_eq, significand]

/-- The unit that rounding chooses for a magnitude is the one it is made of. -/
theorem unitExponent_magnitude {rank : Nat} (h : 0 < rank) :
    f.unitExponent (f.magnitude rank) = f.minExponent + f.doublings rank := by
  have hlog : floorLog2 (f.magnitude rank) = (f.significand rank).log2 + (f.minExponent + f.doublings rank) := by
    rw [magnitude_eq, floorLog2_natCast_mul (f.significand_pos h).ne']
  unfold unitExponent
  dsimp only
  rw [hlog]
  rcases Nat.lt_or_ge rank f.binade with hlt | hge
  · -- in the first binade the significand is short, and the smallest unit is chosen
    have hshort : (f.significand rank).log2 < f.fractionBits := by
      rw [f.significand_of_lt hlt]
      exact (Nat.log2_lt (by omega)).mpr hlt
    have hnone : f.doublings rank = 0 := by simp [doublings, Nat.div_eq_of_lt hlt]
    rw [hnone, if_pos (by omega)]
    simp
  · have hfull : (f.significand rank).log2 = f.fractionBits := by
      have hmod := Nat.mod_lt rank f.binade_pos
      rw [f.significand_of_le hge]
      apply (Nat.log2_eq_iff (by have := f.binade_pos; omega)).mpr
      have hpow : 2 ^ f.fractionBits = f.binade := rfl
      rw [Nat.pow_succ, hpow]
      omega
    rw [hfull, if_neg (by omega)]
    omega

/-- The rank of a magnitude is found again when it is rounded. -/
theorem nearestRank_magnitude {rank : Nat} (h : 0 < rank) : f.nearestRank (f.magnitude rank) = rank := by
  have hunit : (0 : ℚ) < 2 ^ (f.minExponent + f.doublings rank) := by positivity
  have hquot : f.magnitude rank / 2 ^ (f.minExponent + f.doublings rank) = f.significand rank := by
    rw [magnitude_eq, mul_div_assoc, div_self hunit.ne', mul_one]
  unfold nearestRank rankBy
  dsimp only
  rw [f.unitExponent_magnitude h, hquot, roundHalfEven_natCast, add_sub_cancel_left, Int.toNat_natCast]
  exact f.significand_add rank

end Format

namespace Binary

variable {f : Format}

/-! ## Numbers -/

/-- The magnitude of a positive finite rank is rounded to that rank. -/
theorem ofMagnitude_magnitude (negative : Bool) {rank : Fin f.infinityRank} (h : 0 < rank.val) :
    ofMagnitude f negative (f.magnitude rank) = .finite negative rank := by
  rw [ofMagnitude, f.nearestRank_magnitude h, ofRank, dif_pos rank.isLt]

/-- The value of a finite number is rounded to the number itself, unless it is a zero, whose sign is lost. -/
theorem round_value (negativeZero negative : Bool) (rank : Fin f.infinityRank) :
    round f negativeZero (finite negative rank).value =
      if rank.val = 0 then .finite negativeZero rank else .finite negative rank := by
  by_cases h : rank.val = 0
  · have hzero : (finite negative rank).value = 0 := by simp [value, h, f.magnitude_zero]
    rw [round, if_pos hzero, if_pos h, ofRank, dif_pos (h ▸ rank.isLt)]
    congr 1
    exact Fin.ext h.symm
  · have hrank : 0 < rank.val := Nat.pos_of_ne_zero h
    have hpos := f.magnitude_pos hrank
    have hback := ofMagnitude_magnitude negative hrank
    rw [if_neg h]
    cases negative with
    | false =>
      have habs : (f.magnitude rank).abs = f.magnitude rank := Rat.abs_of_nonneg hpos.le
      have hvalue : (finite false rank).value = f.magnitude rank := rfl
      rw [round, hvalue, if_neg hpos.ne', decide_eq_false hpos.not_gt, habs, hback]
    | true =>
      have hneg : -f.magnitude rank < 0 := neg_neg_of_pos hpos
      have habs : (-f.magnitude rank).abs = f.magnitude rank := by
        rw [Rat.abs_neg, Rat.abs_of_nonneg hpos.le]
      have hvalue : (finite true rank).value = -f.magnitude rank := rfl
      rw [round, hvalue, if_neg hneg.ne, decide_eq_true hneg, habs, hback]

end Binary

end StreamCharts
