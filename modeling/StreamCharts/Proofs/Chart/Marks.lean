import Mathlib.Data.List.Pairwise
import StreamCharts.Proofs.Chart.Positions

/-!
# Marks within the reach of a step

Where the bounds of an axis are no more than `2 ^ 52` steps away from zero, the marks increase; up to `2 ^ 63` steps they stay
within the bounds; and if the extent of the bounds is a finite number, no multiple of the step is without a mark
(`marks_within_reach_of_step`). Beyond that reach the indices are cut to 64 bits, and a step may vanish: the statements fail there
(`marks_beyond_reach_of_step`).
-/

namespace StreamCharts

open Format

/-! ## The list of indices -/

/-- An integer of the list of indices lies between the first and the last and within the count. -/
theorem mem_integersUpTo {first last i : ℤ} {count : ℕ} :
    i ∈ integersUpTo first last count ↔ first ≤ i ∧ i ≤ last ∧ i < first + count := by
  simp only [integersUpTo, List.mem_map, List.mem_range]
  constructor
  · rintro ⟨k, hk, rfl⟩
    split at hk <;> omega
  · rintro ⟨hfirst, hlast, hcount⟩
    refine ⟨(i - first).toNat, ?_, by omega⟩
    split <;> omega

/-- The list of indices increases. -/
theorem integersUpTo_pairwise (first last : ℤ) (count : ℕ) : (integersUpTo first last count).Pairwise (· < ·) := by
  rw [integersUpTo, List.pairwise_map]
  exact List.pairwise_lt_range.imp fun h => by omega

/-- The list of indices has no more than so many. -/
theorem length_integersUpTo_le (first last : ℤ) (count : ℕ) : (integersUpTo first last count).length ≤ count := by
  rw [integersUpTo, List.length_map, List.length_range]
  split <;> omega

/-! ## Bounds in order -/

/-- The two bounds of an axis, the lower one first. -/
def BoundsAre (bounds : Binary64 × Binary64) (low high : Binary64) : Prop :=
  low.isFinite = true ∧ high.isFinite = true ∧
    (bounds = (low, high) ∧ low.value ≤ high.value ∨ bounds = (high, low) ∧ low.value < high.value)

/-- The marks between finite bounds are those from the lower to the higher one. -/
theorem limitedMarks_eq {bounds : Binary64 × Binary64} {low high : Binary64} (h : BoundsAre bounds low high) {limit : ℕ}
    (hlimit : limit ≠ 0) (whole : Bool) :
    limitedMarks bounds limit whole = marksBetween low high limit (tickStep (high - low) limit whole) := by
  obtain ⟨hlow, hhigh, horder⟩ := h
  have hordered : (if bounds.1.le bounds.2 then bounds else (bounds.2, bounds.1)) = (low, high) := by
    rcases horder with ⟨rfl, hle⟩ | ⟨rfl, hlt⟩
    · rw [if_pos (((Binary.denotes_value hlow).le_iff (Binary.denotes_value hhigh)).mpr hle)]
    · rw [if_neg (mt ((Binary.denotes_value hhigh).le_iff (Binary.denotes_value hlow)).mp hlt.not_ge)]
  unfold limitedMarks
  rw [hordered]
  simp [hlow, hhigh, hlimit]

/-- Bounds that are not finite have no marks. -/
theorem limitedMarks_eq_nil_or (bounds : Binary64 × Binary64) (limit : ℕ) (whole : Bool) :
    limitedMarks bounds limit whole = [] ∨ ∃ low high, BoundsAre bounds low high := by
  obtain ⟨a, b⟩ := bounds
  cases hfinite : a.isFinite && b.isFinite with
  | false =>
    left
    have hneither : (!a.isFinite || !b.isFinite) = true ∧ (!b.isFinite || !a.isFinite) = true := by
      rw [← Bool.not_and, ← Bool.not_and, Bool.and_comm b.isFinite, hfinite]
      exact ⟨rfl, rfl⟩
    unfold limitedMarks
    cases a.le b <;> simp [hneither]
  | true =>
    right
    obtain ⟨ha, hb⟩ := Bool.and_eq_true _ _ ▸ hfinite
    rcases le_or_gt a.value b.value with hle | hlt
    · exact ⟨a, b, ha, hb, Or.inl ⟨rfl, hle⟩⟩
    · exact ⟨b, a, hb, ha, Or.inr ⟨rfl, hlt⟩⟩

/-- A mark of an axis stands at an index between the bounds. -/
theorem mem_marksBetween {low high step : Binary64} {limit : ℕ} {mark : Mark} :
    mark ∈ marksBetween low high limit step ↔
      ∃ i : ℤ, (low / step).ceil.toInt ≤ i ∧ i ≤ (high / step).floor.toInt ∧ i < (low / step).ceil.toInt + limit ∧
        mark = ⟨Binary.ofInt .double i * step, step⟩ := by
  unfold marksBetween
  dsimp only
  rw [List.mem_map]
  simp only [mem_integersUpTo]
  constructor
  · rintro ⟨i, ⟨hfirst, hlast, hcount⟩, rfl⟩
    exact ⟨i, hfirst, hlast, hcount, rfl⟩
  · rintro ⟨i, hfirst, hlast, hcount, rfl⟩
    exact ⟨i, ⟨hfirst, hlast, hcount⟩, rfl⟩

section

variable {low high step : Binary64} {x y s : ℚ} {limit : ℕ}

/-! ## Marks that increase -/

/-- An index of bounds within `2 ^ 52` steps has no more than 52 binary places. -/
theorem abs_index_le (hlow : low.Denotes x) (hhigh : high.Denotes y) (hstep : step.Denotes s) (hpos : 0 < s)
    (hx : |x| ≤ 2 ^ 52 * s) (hy : |y| ≤ 2 ^ 52 * s) {i : ℤ} (hfirst : (low / step).ceil.toInt ≤ i)
    (hlast : i ≤ (high / step).floor.toInt) : |i| ≤ 2 ^ 52 := by
  have hreach {z : ℚ} (hz : |z| ≤ 2 ^ 52 * s) : |z| ≤ 2 ^ 63 * s := by linarith
  have hquot {z : ℚ} (hz : |z| ≤ 2 ^ 52 * s) : |double.nearest (z / s)| ≤ 2 ^ 52 := by
    rw [double.abs_nearest, ← nearest_two_pow_double, abs_div, abs_of_pos hpos]
    exact double.nearest_mono ((div_le_iff₀ hpos).mpr hz)
  rw [firstIndex_eq hlow hstep hpos (hreach hx)] at hfirst
  rw [lastIndex_eq hhigh hstep hpos (hreach hy)] at hlast
  have hceil : -2 ^ 52 ≤ ⌈double.nearest (x / s)⌉ := by
    have hle := (neg_le_of_abs_le (hquot hx)).trans (Int.le_ceil _)
    exact_mod_cast hle
  have hfloor : ⌊double.nearest (y / s)⌋ ≤ 2 ^ 52 := by
    have hle := (Int.floor_le _).trans (le_of_abs_le (hquot hy))
    exact_mod_cast hle
  rw [abs_le]
  omega

/-- The marks between bounds within `2 ^ 52` steps increase. -/
theorem marksBetween_pairwise (hlow : low.Denotes x) (hhigh : high.Denotes y) (hstep : step.Denotes s) (hs : IsStep s)
    (hpos : 0 < s) (hx : |x| ≤ 2 ^ 52 * s) (hy : |y| ≤ 2 ^ 52 * s) :
    (marksBetween low high limit step).Pairwise fun mark later => mark.position.value < later.position.value := by
  have hreach {z : ℚ} (hz : |z| ≤ 2 ^ 52 * s) : |z| ≤ 2 ^ 63 * s := by linarith
  have hindex {i : ℤ} (hi : i ∈ integersUpTo (low / step).ceil.toInt (high / step).floor.toInt limit) :
      |i| ≤ 2 ^ 52 ∧ (Binary.ofInt .double i * step).value = double.nearest (i * s) := by
    obtain ⟨hfirst, hlast, -⟩ := mem_integersUpTo.mp hi
    have hfew := abs_index_le hlow hhigh hstep hpos hx hy hfirst hlast
    have hposition := (position_within hlow hhigh hstep hs hpos (hreach hx) (hreach hy) hfirst hlast).1
    refine ⟨hfew, ?_⟩
    rw [hposition.value, hasIntegers_double.nearest_eq (hfew.trans (by decide))]
  unfold marksBetween
  dsimp only
  rw [List.pairwise_map]
  refine (integersUpTo_pairwise _ _ _).imp_of_mem fun {i j} hi hj hlt => ?_
  rw [(hindex hi).2, (hindex hj).2]
  exact nearest_mul_lt hstep hpos (hindex hi).1 (hindex hj).1 hlt

/-! ## Multiples without a gap -/

/-- How far a mark may leave the bounds. -/
def slack (x y : ℚ) : ℚ :=
  1 / 10 ^ 9 * max 1 (max |x| |y|)

/-- The slack is the part of the larger bound, and of one, that is forgiven. -/
theorem slack_bounds (x y : ℚ) : 1 ≤ 10 ^ 9 * slack x y ∧ |x| ≤ 10 ^ 9 * slack x y ∧ |y| ≤ 10 ^ 9 * slack x y := by
  have hscale : 10 ^ 9 * slack x y = max 1 (max |x| |y|) := by
    unfold slack
    ring
  rw [hscale]
  exact ⟨le_max_left _ _, (le_max_left _ _).trans (le_max_right _ _), (le_max_right _ _).trans (le_max_right _ _)⟩

/-- The steps between bounds of a finite extent make it up, if the bounds are apart by more than the slack on both sides. -/
theorem extent_le_step_mul (hlimit : 2 < limit) (hsmall : limit ≤ 1000) {whole : Bool} (hlow : low.Denotes x)
    (hhigh : high.Denotes y) (hstep : (tickStep (high - low) limit whole).Denotes s) (hextent : (high - low).isFinite = true)
    (hroom : 2 * slack x y ≤ y - x) : (y - x) * (1 - 3 / 10 ^ 9) ≤ s * intervals limit := by
  have hone := (slack_bounds x y).1
  have hcount : (intervals limit : ℚ) ≤ 1000 := by exact_mod_cast (two_le_intervals hlimit).2.trans hsmall
  have hspan := hhigh.sub hlow (hhigh.fits_sub hlow hextent)
  have hsmallest := smallest_double_le (n := 200) (by decide)
  have hpositive := double.smallest_pos
  obtain ⟨hbelow, -⟩ := nearest_double_bounds (x := y - x) (by linarith)
  have hlarge : 2 ^ (-50 + 1 : ℤ) * intervals limit ≤ double.nearest (y - x) := by
    calc (2 : ℚ) ^ (-50 + 1 : ℤ) * intervals limit ≤ 2 ^ (-50 + 1 : ℤ) * 1000 := by gcongr
      _ ≤ double.nearest (y - x) := by norm_num; linarith
  have hpart := le_partOf (show double.minExponent ≤ -50 by decide) hlarge
  have hunits : 2 ^ 32 * double.smallest ≤ (2 : ℚ) ^ (-50 : ℤ) := by norm_num; linarith
  have hreach := span_le_step_mul (hsmall.trans (by decide)) hspan (by linarith) hstep (Or.inr (Or.inr (hunits.trans hpart)))
  linarith

/-- So the step is not small, measured by the slack. -/
theorem slack_le_step_mul (hlimit : 2 < limit) (hsmall : limit ≤ 1000) (hroom : 2 * slack x y ≤ y - x)
    (hextent : (y - x) * (1 - 3 / 10 ^ 9) ≤ s * intervals limit) : 0 < s ∧ slack x y ≤ 10 ^ 3 * s := by
  have hone := (slack_bounds x y).1
  have hcount : (2 : ℚ) ≤ intervals limit := by exact_mod_cast (two_le_intervals hlimit).1
  have hcount' : (intervals limit : ℚ) ≤ 1000 := by exact_mod_cast (two_le_intervals hlimit).2.trans hsmall
  have hpos : 0 < s := pos_of_mul_pos_left (show 0 < s * intervals limit by linarith) (by linarith)
  have hwide : s * intervals limit ≤ s * 1000 := mul_le_mul_of_nonneg_left hcount' hpos.le
  exact ⟨hpos, by linarith⟩

/-- The index of a multiple between the bounds is not cut off by the limit. -/
theorem lt_firstIndex_add (hlimit : 2 < limit) (hsmall : limit ≤ 1000) (hpos : 0 < s) (hs : s ≤ double.limit)
    (hextent : (y - x) * (1 - 3 / 10 ^ 9) ≤ s * intervals limit) {k : ℤ} (hbelow : k * s ≤ y - slack x y) :
    k < ⌈double.nearest (x / s)⌉ + limit := by
  obtain ⟨hone, hx, -⟩ := slack_bounds x y
  have hquot := (abs_le.mp (abs_quotient_mul_sub_le (x := x) hpos hs)).1
  have hcount : (intervals limit : ℚ) + 1 = limit := by
    have hexact : intervals limit + 1 = limit := by
      rw [intervals, if_neg (by omega)]
      omega
    exact_mod_cast hexact
  have hsmall' : (limit : ℚ) ≤ 1000 := by exact_mod_cast hsmall
  have hwide : s * intervals limit ≤ s * 1000 := mul_le_mul_of_nonneg_left (by linarith) hpos.le
  -- measured in steps, the quotient is farther than the extent by less than one
  have hscaled : k * s < (double.nearest (x / s) + limit) * s := by
    rw [← hcount]
    linarith
  have hlt := lt_of_mul_lt_mul_right hscaled hpos.le
  have hceil : double.nearest (x / s) + limit ≤ ((⌈double.nearest (x / s)⌉ + limit : ℤ) : ℚ) := by
    push_cast
    linarith [Int.le_ceil (double.nearest (x / s))]
  exact_mod_cast hlt.trans_le hceil

/-- The index of a multiple that lies between the bounds with some slack is one of the axis, and it is small. -/
theorem index_of_multiple (hlimit : 2 < limit) (hsmall : limit ≤ 1000) {whole : Bool} (hlow : low.Denotes x)
    (hhigh : high.Denotes y) (hstep : step.Denotes s) (heq : step = tickStep (high - low) limit whole)
    (hextent : (high - low).isFinite = true) {k : ℤ} (habove : x + slack x y ≤ k * s) (hbelow : k * s ≤ y - slack x y) :
    0 < s ∧ |k| ≤ 2 ^ 52 ∧
      (low / step).ceil.toInt ≤ k ∧ k ≤ (high / step).floor.toInt ∧ k < (low / step).ceil.toInt + limit := by
  obtain ⟨hone, hx, hy⟩ := slack_bounds x y
  have hroom : 2 * slack x y ≤ y - x := by linarith
  have hsteps := extent_le_step_mul hlimit hsmall hlow hhigh (heq ▸ hstep) hextent hroom
  obtain ⟨hpos, hslack⟩ := slack_le_step_mul hlimit hsmall hroom hsteps
  have hfew : |k| ≤ 2 ^ 52 := by
    have hscaled : |(k : ℚ)| * s ≤ 2 ^ 52 * s := by
      rw [← abs_of_pos hpos, ← abs_mul, abs_of_pos hpos, abs_le]
      constructor <;> linarith [neg_abs_le x, le_abs_self y]
    have hk := le_of_mul_le_mul_right hscaled hpos
    exact_mod_cast hk
  have hexact : double.nearest k = k := hasIntegers_double.nearest_eq (hfew.trans (by decide))
  have hfirst : double.nearest (x / s) ≤ k := by
    rw [← hexact]
    exact double.nearest_mono ((div_le_iff₀ hpos).mpr (by linarith))
  have hlast : (k : ℚ) ≤ double.nearest (y / s) := by
    rw [← hexact]
    exact double.nearest_mono ((le_div_iff₀ hpos).mpr (by linarith))
  have hceil := Int.ceil_le.mpr hfirst
  have hfloor := Int.le_floor.mpr hlast
  have hreached := lt_firstIndex_add hlimit hsmall hpos ((le_abs_self s).trans hstep.abs_lt_limit.le) hsteps hbelow
  have hrange := abs_le.mp hfew
  rw [firstIndex_eq hlow hstep hpos (by linarith), lastIndex_eq hhigh hstep hpos (by linarith)]
  refine ⟨hpos, hfew, ?_, ?_, ?_⟩ <;> omega

/-- The step of bounds that are so many steps away from zero does not vanish. -/
theorem step_pos_of_reach (hsmall : limit ≤ 1000) {whole : Bool} (hlow : low.Denotes x) (hhigh : high.Denotes y)
    (hstep : (tickStep (high - low) limit whole).Denotes s) {count : ℚ} (hcount : 0 ≤ count)
    (hx : |x| ≤ count * s) (hy : |y| ≤ count * s) : 0 < s := by
  by_contra hneg
  have hnone : count * s ≤ 0 := mul_nonpos_of_nonneg_of_nonpos hcount (not_lt.mp hneg)
  obtain rfl : x = 0 := abs_eq_zero.mp (le_antisymm (hx.trans hnone) (abs_nonneg x))
  obtain rfl : y = 0 := abs_eq_zero.mp (le_antisymm (hy.trans hnone) (abs_nonneg y))
  have hspan := hhigh.sub hlow (by rw [sub_zero]; exact hlow.fits)
  rw [sub_zero, nearest_zero] at hspan
  rw [tickStep_of_zero (hsmall.trans (by decide)) whole hspan] at hstep
  rw [← hstep.value, one_denotes.value] at hneg
  exact hneg one_pos

end

/-! ## The marks of an axis -/

/-- The policies of the figure, each with its limit of marks and whether its steps are whole. -/
inductive TickPolicy.Limits : TickPolicy → ℕ → Bool → Prop where
  | times : Limits (.atMost maxMajorTicks) maxMajorTicks false
  | whole : Limits .integer maxIntegerTicks true

/-- The limits of the figure leave more than one interval. -/
theorem TickPolicy.Limits.bounds {policy : TickPolicy} {limit : ℕ} {whole : Bool} (h : policy.Limits limit whole) :
    2 < limit ∧ limit ≤ 1000 := by
  cases h <;> decide

/-- The marks of a policy of the figure between bounds in order. -/
theorem TickPolicy.Limits.marks_eq {policy : TickPolicy} {limit : ℕ} {whole : Bool} (h : policy.Limits limit whole)
    {bounds : Binary64 × Binary64} {low high : Binary64} (hbounds : BoundsAre bounds low high) :
    policy.marks bounds = some (marksBetween low high limit (tickStep (high - low) limit whole)) := by
  cases h <;> exact congrArg some (limitedMarks_eq hbounds (by decide) _)

/-- Both policies of the figure give finite bounds, in either order, marks of one finite step. For bounds of no more than `2 ^ 52`
steps the marks increase. For bounds of no more than `2 ^ 63` steps they are finite numbers within the bounds, but for the slack.
And if the extent of the bounds is finite, each multiple of the step that lies within the bounds with the slack has a mark, which
stands at the nearest number. -/
theorem marks_within_reach_of_step {policy : TickPolicy} {limit : ℕ} {whole : Bool} (hpolicy : policy.Limits limit whole)
    {bounds : Binary64 × Binary64} {low high step : Binary64} (hbounds : BoundsAre bounds low high)
    (hstep : step = tickStep (high - low) limit whole) :
    ∃ marks, policy.marks bounds = some marks ∧ step.isFinite = true ∧ (∀ mark ∈ marks, mark.step = step) ∧
      (|low.value| ≤ 2 ^ 52 * step.value → |high.value| ≤ 2 ^ 52 * step.value →
        marks.Pairwise fun mark later => mark.position.value < later.position.value) ∧
      (|low.value| ≤ 2 ^ 63 * step.value → |high.value| ≤ 2 ^ 63 * step.value →
        ∀ mark ∈ marks, mark.position.isFinite = true ∧ low.value - slack low.value high.value ≤ mark.position.value ∧
          mark.position.value ≤ high.value + slack low.value high.value) ∧
      ((high - low).isFinite = true →
        ∀ k : ℤ, low.value + slack low.value high.value ≤ k * step.value →
          k * step.value ≤ high.value - slack low.value high.value →
          ∃ mark ∈ marks, mark.position = Binary.ofRat .double (k * step.value)) := by
  obtain ⟨hlimit, hsmall⟩ := hpolicy.bounds
  obtain ⟨s, hdenotes, hs⟩ := tickStep_denotes hlimit (hsmall.trans (by decide)) (high - low) whole
  have hlow := Binary.denotes_value hbounds.1
  have hhigh := Binary.denotes_value hbounds.2.1
  have hmarks := hpolicy.marks_eq hbounds
  have hpos {count : ℚ} (hcount : 0 ≤ count) := step_pos_of_reach hsmall hlow hhigh hdenotes hcount
  rw [← hstep] at hmarks hdenotes
  rw [hdenotes.value]
  generalize low.value = x at hlow hpos ⊢
  generalize high.value = y at hhigh hpos ⊢
  refine ⟨_, hmarks, hdenotes.isFinite, ?_, ?_, ?_, ?_⟩
  · intro mark hmark
    obtain ⟨i, -, -, -, rfl⟩ := mem_marksBetween.mp hmark
    rfl
  · intro hx hy
    exact marksBetween_pairwise hlow hhigh hdenotes hs (hpos (by norm_num) hx hy) hx hy
  · intro hx hy mark hmark
    obtain ⟨i, hfirst, hlast, -, rfl⟩ := mem_marksBetween.mp hmark
    obtain ⟨hposition, hbelow, habove⟩ :=
      position_within hlow hhigh hdenotes hs (hpos (by norm_num) hx hy) hx hy hfirst hlast
    obtain ⟨hone, hslackX, hslackY⟩ := slack_bounds x y
    have hlarger := max_le hone hslackX
    have hlarger' := max_le hone hslackY
    refine ⟨hposition.isFinite, ?_, ?_⟩ <;> rw [hposition.value] <;> linarith
  · intro hextent k habove hbelow
    obtain ⟨hpositive, hfew, hfirst, hlast, hcount⟩ :=
      index_of_multiple hlimit hsmall hlow hhigh hdenotes hstep hextent habove hbelow
    refine ⟨_, mem_marksBetween.mpr ⟨k, hfirst, hlast, hcount, rfl⟩, ?_⟩
    exact ofInt_mul_eq hdenotes hpositive (hfew.trans (by decide))

/-- Bounds given upwards and downwards: ten marks that increase and stay within them, one of them at the second multiple. -/
theorem marks_between_reversed_bounds : ∃ marks, TickPolicy.marks (.atMost maxMajorTicks) (97.1, -3.3) = some marks ∧
    marks.Pairwise (fun mark later => mark.position.value < later.position.value) ∧
    (∀ mark ∈ marks, mark.step = 10 ∧
      (-3.3 : Binary64).value - slack (-3.3 : Binary64).value (97.1 : Binary64).value ≤ mark.position.value) ∧
    ∃ mark ∈ marks, mark.position = 20 := by
  have hbounds : BoundsAre (97.1, -3.3) (-3.3) 97.1 :=
    ⟨by decide +kernel, by decide +kernel, Or.inr ⟨rfl, by decide +kernel⟩⟩
  have hstep : (10 : Binary64) = tickStep (97.1 - -3.3) maxMajorTicks false := by decide +kernel
  obtain ⟨marks, hmarks, -, hsteps, hincrease, hwithin, hcover⟩ := marks_within_reach_of_step .times hbounds hstep
  obtain ⟨mark, hmark, hposition⟩ := hcover (by decide +kernel) 2 (by decide +kernel) (by decide +kernel)
  refine ⟨marks, hmarks, hincrease (by decide +kernel) (by decide +kernel), fun mark hmark => ?_, mark, hmark, ?_⟩
  · obtain ⟨-, hlow, -⟩ := hwithin (by decide +kernel) (by decide +kernel) mark hmark
    exact ⟨hsteps mark hmark, hlow⟩
  · rw [hposition]
    decide +kernel

/-- Beyond the reach of the step the statements fail. The index of bounds far from zero is cut to 64 bits, and the only mark lies
below them. Indices of more than 53 binary places share a position with the one before. The step of a tiny extent vanishes. An
extent that is not finite has step 1, and the positions of the indices, cut to 64 bits, are one. -/
theorem marks_beyond_reach_of_step :
    (TickPolicy.atMost maxMajorTicks).marks (1e19, 1e19) = some [⟨9223372036854775808, 1⟩] ∧
      (9223372036854775808 : Binary64).value < (1e19 : Binary64).value - slack (1e19 : Binary64).value (1e19 : Binary64).value ∧
      TickPolicy.integer.marks (9007199254740992, 9007199254740996) =
        some ([9007199254740992, 9007199254740992, 9007199254740994, 9007199254740996, 9007199254740996].map (⟨·, 1⟩)) ∧
      (TickPolicy.atMost maxMajorTicks).marks (0, 7e-323) = some (List.replicate 15 ⟨0, 0⟩) ∧
      (TickPolicy.atMost maxMajorTicks).marks (-1e308, 1e308) = some (List.replicate 15 ⟨-9223372036854775808, 1⟩) := by
  decide +kernel

end StreamCharts
