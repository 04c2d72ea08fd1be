import StreamCharts.Chart.Ticks
import StreamCharts.Proofs.Chart.Decade

/-!
# The step between marks

A step is 1, or a small multiple of a power of ten (`tickStep_cases`). It is a finite number if there are at least three marks to
place (`tickStep_denotes`). A finite step is large enough: so many steps as there are intervals make up a span that is not tiny, but
for the part that is forgiven (`span_le_step_mul`).
-/

namespace StreamCharts

open Format

/-! ## Nice steps -/

/-- The constants from which steps are made. The multiples are numbers from one to ten, and those of a whole step are whole; the part of
a number that a step has to reach is little less than one. -/
theorem step_constants : (∀ m ∈ niceMultiples, m.isFinite = true ∧ 1 ≤ m.value ∧ m.value ≤ 10) ∧
    (∀ m ∈ integerMultiples, m.value.den = 1) ∧
    (1 - 1e-9 : Binary64).isFinite = true ∧ 1 - 1 / 10 ^ 9 - 1 / 2 ^ 53 ≤ (1 - 1e-9 : Binary64).value ∧
      (1 - 1e-9 : Binary64).value ≤ 1 - 1 / 10 ^ 9 + 1 / 2 ^ 53 := by
  decide +kernel

/-- The multiples of a whole step are among those of a step. -/
theorem integerMultiples_subset : integerMultiples ⊆ niceMultiples := by
  simp [integerMultiples, niceMultiples]

/-- Ten is among the multiples. -/
theorem ten_mem_niceMultiples : 10 ∈ niceMultiples := by
  simp [niceMultiples]

/-- Ten is among the whole multiples. -/
theorem ten_mem_integerMultiples : 10 ∈ integerMultiples := by
  simp [integerMultiples]

/-- One is a number. -/
theorem one_denotes : (1 : Binary64).Denotes 1 := by
  have hone : (1 : Binary64).Denotes (1 : ℕ) := Binary.ofNat_denotes hasIntegers_double (by decide)
  rwa [Nat.cast_one] at hone

/-- Powers of ten at two borders. Ten times a tenth, each rounded, is one. The power of the last decade is finite, and twice that power
is not. -/
theorem border_powers : double.nearest (10 * double.nearest (10 ^ (-1 : ℤ))) = 1 ∧
    (1e308 : Binary64).isFinite = true ∧ (1e308 : Binary64).value = double.nearest (10 ^ (308 : ℤ)) ∧
    (1 : Binary64) * powerOfTen 308 = 1e308 ∧ (2 : Binary64) * powerOfTen 308 = .infinite false := by
  decide +kernel

/-- A nice step is a multiple of the power of ten of its decade. -/
theorem niceStep_eq {multiples : List Binary64} (hten : 10 ∈ multiples) (raw : Binary64) :
    ∃ m ∈ multiples, niceStep raw multiples = m * powerOfTen (decadeOf raw.value) := by
  unfold niceStep
  dsimp only
  split
  · rename_i step hfound
    obtain ⟨m, hm, rfl⟩ := List.mem_map.mp (List.mem_of_find?_eq_some hfound)
    exact ⟨m, hm, rfl⟩
  · exact ⟨10, hten, rfl⟩

/-- A nice step reaches what a step has to reach, or it is ten times the power of ten. -/
theorem niceStep_reaches (raw : Binary64) (multiples : List Binary64) :
    (forgiven raw).le (niceStep raw multiples) = true ∨ niceStep raw multiples = 10 * powerOfTen (decadeOf raw.value) := by
  unfold niceStep
  dsimp only
  split
  · rename_i step hfound
    left
    exact List.find?_some hfound
  · exact Or.inr rfl

/-- A multiple of a power of ten does not exceed the next larger power by more than rounding. -/
theorem multiple_le {m : Binary64} (hm : m ∈ niceMultiples) {d e : ℤ} (hd : d ≤ e) (he : e ≤ 307) (h0 : 0 ≤ e) :
    m.value * (powerOfTen d).value ≤ 10 ^ (e + 1) * (1 + 1 / 2 ^ 51) := by
  obtain ⟨-, hone, hten⟩ := step_constants.1 m hm
  have hd' : d ≤ 308 := by omega
  have hnear := (abs_le.mp (powerOfTen_near hd')).2
  have hpow : (10 : ℚ) ^ d ≤ 10 ^ e := zpow_le_zpow_right₀ (by norm_num) hd
  have hsmallest := smallest_double_le (n := 100) (by decide)
  have hlarge : (1 : ℚ) ≤ 10 ^ e := one_le_zpow₀ (by norm_num) h0
  calc m.value * (powerOfTen d).value ≤ 10 * (powerOfTen d).value :=
        mul_le_mul_of_nonneg_right hten (powerOfTen_nonneg hd')
    _ ≤ 10 * (10 ^ e * (1 + 1 / 2 ^ 51)) := by linarith
    _ = 10 ^ (e + 1) * (1 + 1 / 2 ^ 51) := by
      rw [zpow_add_one₀ (by norm_num)]
      ring

/-- A multiple of a power of ten is rounded to a finite number, if ten times that power is. -/
theorem multiple_fits {m : Binary64} (hm : m ∈ niceMultiples) {d : ℤ} (hd : d ≤ 307) :
    double.Fits (m.value * (powerOfTen d).value) := by
  obtain ⟨-, hone, -⟩ := step_constants.1 m hm
  have hnonneg := powerOfTen_nonneg (show d ≤ 308 by omega)
  apply fits_double
  rw [abs_of_nonneg (by positivity)]
  obtain ⟨-, -, hlast, -⟩ := ten_zpow_bounds
  exact (multiple_le hm hd le_rfl (by decide)).trans hlast

/-- A multiple of a power of ten denotes the nearest number, if that is finite. -/
theorem multiple_denotes {m : Binary64} (hm : m ∈ niceMultiples) {d : ℤ} (hd : d ≤ 308)
    (hfits : double.Fits (m.value * (powerOfTen d).value)) :
    (m * powerOfTen d).Denotes (double.nearest (m.value * (powerOfTen d).value)) :=
  (Binary.denotes_value (step_constants.1 m hm).1).mul (Binary.denotes_value (powerOfTen_isFinite hd)) hfits

section

variable {raw : Binary64} {r : ℚ}

/-- Ten times the power of ten of a number reaches the number, but for a small part and a few of the smallest units. -/
theorem le_ten_mul_powerOfTen (hr : 0 < r) (hd : decadeOf r ≤ 308) :
    r * (1 - 1 / 2 ^ 52) - 5 * double.smallest ≤ 10 * (powerOfTen (decadeOf r)).value := by
  have hhigh := (decadeOf_spec hr).2
  have hnear := (abs_le.mp (powerOfTen_near hd)).1
  rw [zpow_add₀ (by norm_num), zpow_one] at hhigh
  linarith

/-- What a step has to reach, as a value. -/
theorem forgiven_denotes (h : raw.Denotes r) (hr : 0 < r) :
    ∃ c, 1 - 1 / 10 ^ 9 - 1 / 2 ^ 53 ≤ c ∧ c ≤ 1 - 1 / 10 ^ 9 + 1 / 2 ^ 53 ∧ (forgiven raw).Denotes (double.nearest (r * c)) := by
  obtain ⟨-, -, hconst⟩ := step_constants
  rw [forgiven]
  generalize (1 - 1e-9 : Binary64) = part at hconst ⊢
  obtain ⟨hfinite, hlow, hhigh⟩ := hconst
  refine ⟨_, hlow, hhigh, h.mul (Binary.denotes_value hfinite) (h.fits.of_abs_le ?_)⟩
  have hnonneg : 0 ≤ part.value := le_trans (by norm_num) hlow
  have hle : part.value ≤ 1 := hhigh.trans (by norm_num)
  rw [abs_of_pos hr, abs_of_nonneg (by positivity)]
  exact mul_le_of_le_one_right hr.le hle

/-- What a step has to reach does not exceed the last power of ten, for numbers of the decades before. -/
theorem forgiven_le_of_decade (h : raw.Denotes r) (hr : 0 < r) (hd : decadeOf r ≤ 307) : (forgiven raw).le 1e308 = true := by
  obtain ⟨c, -, hhigh, hforgiven⟩ := forgiven_denotes h hr
  obtain ⟨-, hfinite, hvalue, -⟩ := border_powers
  have hlast : (1e308 : Binary64).Denotes (double.nearest (10 ^ (308 : ℤ))) := ⟨hfinite, hvalue⟩
  rw [hforgiven.le_iff hlast]
  apply double.nearest_mono
  calc r * c ≤ r := mul_le_of_le_one_right hr.le (hhigh.trans (by norm_num))
    _ ≤ 10 ^ (decadeOf r + 1) := (decadeOf_spec hr).2.le
    _ ≤ 10 ^ (308 : ℤ) := zpow_le_zpow_right₀ (by norm_num) (by omega)

/-- In the last decade only the power of ten itself is finite among its multiples. -/
theorem niceStep_of_last_decade (h : raw.Denotes r) (hr : 0 < r) (hd : decadeOf r = 308) (rest : List Binary64) :
    niceStep raw (1 :: 2 :: rest) = if (forgiven raw).le 1e308 then 1 * powerOfTen 308 else .infinite false := by
  obtain ⟨c, -, -, hforgiven⟩ := forgiven_denotes h hr
  obtain ⟨-, -, -, hone, htwo⟩ := border_powers
  unfold niceStep
  rw [h.value, hd]
  simp only [List.map_cons, List.find?_cons, hone, htwo, hforgiven.le_infinite]
  cases (forgiven raw).le 1e308 <;> rfl

/-- A nice step is a multiple of the power of ten that is rounded to a finite number, or it is infinite: what it has to reach is then
beyond the last power of ten. -/
theorem niceStep_cases {multiples : List Binary64} (hmultiples : multiples = niceMultiples ∨ multiples = integerMultiples)
    (h : raw.Denotes r) (hr : 0 < r) :
    ((forgiven raw).le 1e308 = true ∧ ∃ m ∈ multiples,
      niceStep raw multiples = m * powerOfTen (decadeOf r) ∧ double.Fits (m.value * (powerOfTen (decadeOf r)).value)) ∨
    ((forgiven raw).le 1e308 = false ∧ niceStep raw multiples = .infinite false) := by
  have hd := decadeOf_le_of_lt_limit hr ((le_abs_self r).trans_lt h.abs_lt_limit)
  rcases hd.lt_or_eq with hlt | hlast
  · have hten : 10 ∈ multiples ∧ multiples ⊆ niceMultiples := by
      rcases hmultiples with rfl | rfl
      · exact ⟨ten_mem_niceMultiples, fun _ hm => hm⟩
      · exact ⟨ten_mem_integerMultiples, integerMultiples_subset⟩
    obtain ⟨m, hm, heq⟩ := niceStep_eq hten.1 raw
    rw [h.value] at heq
    exact Or.inl ⟨forgiven_le_of_decade h hr (by omega), m, hm, heq, multiple_fits (hten.2 hm) (by omega)⟩
  · have hfirst : 1 ∈ multiples ∧ ∃ rest, multiples = 1 :: 2 :: rest := by
      rcases hmultiples with rfl | rfl <;> exact ⟨List.mem_cons_self, _, rfl⟩
    obtain ⟨hone, rest, hrest⟩ := hfirst
    have hstep := niceStep_of_last_decade h hr hlast rest
    rw [← hrest] at hstep
    cases hle : (forgiven raw).le 1e308 with
    | false =>
      rw [hle, if_neg Bool.false_ne_true] at hstep
      exact Or.inr ⟨rfl, hstep⟩
    | true =>
      rw [hle, if_pos rfl] at hstep
      obtain ⟨-, hlastFinite, -, hlastPower, -⟩ := border_powers
      have hfinite : (1 * powerOfTen 308).isFinite = true := hlastPower ▸ hlastFinite
      have hfits := (Binary.denotes_value one_denotes.isFinite).fits_mul (Binary.denotes_value (powerOfTen_isFinite le_rfl)) hfinite
      rw [hlast]
      exact Or.inl ⟨rfl, 1, hone, hstep, hfits⟩

/-- A nice step reaches a number of some of the smallest units, but for the part that is forgiven and the rounding. -/
theorem le_niceStep {multiples : List Binary64} (h : raw.Denotes r) (hr : 0 < r) (hunits : 2 ^ 32 * double.smallest ≤ r)
    {s : ℚ} (hs : (niceStep raw multiples).Denotes s) : r * (1 - 13 / 10 ^ 10) ≤ s := by
  have hsmallest := double.smallest_pos
  have hd := decadeOf_le_of_lt_limit hr ((le_abs_self r).trans_lt h.abs_lt_limit)
  rcases niceStep_reaches raw multiples with hreaches | hten
  · obtain ⟨c, hlow, -, hforgiven⟩ := forgiven_denotes h hr
    have hscaled := mul_le_mul_of_nonneg_left hlow hr.le
    obtain ⟨hbelow, -⟩ := nearest_double_bounds_add (x := r * c) (by linarith)
    have hle := (hforgiven.le_iff hs).mp hreaches
    linarith
  · rw [hten, h.value] at hs
    have hpower := le_ten_mul_powerOfTen hr hd
    have htenDenotes : (10 : Binary64).Denotes 10 := Binary.ofNat_denotes hasIntegers_double (by decide)
    have hpowerDenotes := Binary.denotes_value (powerOfTen_isFinite hd)
    have hproduct := htenDenotes.mul hpowerDenotes (htenDenotes.fits_mul hpowerDenotes hs.isFinite)
    obtain ⟨hbelow, -⟩ := nearest_double_bounds_add (x := 10 * (powerOfTen (decadeOf r)).value) (by linarith)
    rw [← hs.value, hproduct.value]
    linarith

end

/-! ## Whole steps -/

/-- A whole multiple of a power of ten is at most one, or an integer. -/
theorem integerMultiple_cases {m : Binary64} (hm : m ∈ integerMultiples) {d : ℤ} (hd : d ≤ 308) :
    double.nearest (m.value * (powerOfTen d).value) ≤ 1 ∨ ∃ n : ℤ, double.nearest (m.value * (powerOfTen d).value) = n := by
  obtain ⟨-, hone, hten⟩ := step_constants.1 m (integerMultiples_subset hm)
  rcases lt_or_ge d 0 with hneg | hnonneg
  · left
    have htenth := powerOfTen_le_tenth hneg
    rw [← border_powers.1]
    apply double.nearest_mono
    exact mul_le_mul hten htenth (powerOfTen_nonneg hd) (by norm_num)
  · right
    obtain ⟨p, hp⟩ := powerOfTen_isInt hnonneg hd
    have hmultiple : m.value = m.value.num.toNat := by
      obtain ⟨-, hwhole, -⟩ := step_constants
      have hint : (m.value.num : ℚ) = m.value := Rat.coe_int_num_of_den_eq_one (hwhole m hm)
      have hpos : 0 ≤ m.value.num := Rat.num_nonneg.mpr (by linarith)
      conv_lhs => rw [← hint, ← Int.toNat_of_nonneg hpos]
      rw [Int.cast_natCast]
    rw [hp, hmultiple, ← Nat.cast_mul]
    exact double.nearest_natCast_isInt _

/-- The larger of one and a whole multiple of a power of ten is an integer. -/
theorem max_integerMultiple_isInt {m : Binary64} (hm : m ∈ integerMultiples) {d : ℤ} (hd : d ≤ 308) :
    ∃ n : ℤ, max (double.nearest (m.value * (powerOfTen d).value)) 1 = n := by
  rcases integerMultiple_cases hm hd with hle | ⟨n, hn⟩
  · exact ⟨1, by rw [max_eq_right hle, Int.cast_one]⟩
  · exact ⟨max n 1, by rw [hn, Int.cast_max, Int.cast_one]⟩

/-- A whole step is the larger of one and the multiple. -/
theorem wholeStep_denotes {m : Binary64} (hm : m ∈ integerMultiples) {d : ℤ} (hd : d ≤ 308)
    (hfits : double.Fits (m.value * (powerOfTen d).value)) :
    ((m * powerOfTen d).larger 1).roundHalfAway.Denotes (max (double.nearest (m.value * (powerOfTen d).value)) 1) := by
  have hlarger := (multiple_denotes (integerMultiples_subset hm) hd hfits).larger one_denotes
  obtain ⟨n, hn⟩ := max_integerMultiple_isInt hm hd
  rw [hn] at hlarger ⊢
  exact hlarger.roundHalfAway hasIntegers_double

/-- A finite whole step is the larger of one and a finite nice step. -/
theorem wholeStep_max {raw : Binary64} {r s : ℚ} (h : raw.Denotes r) (hr : 0 < r)
    (hs : ((niceStep raw integerMultiples).larger 1).roundHalfAway.Denotes s) :
    ∃ t, (niceStep raw integerMultiples).Denotes t ∧ s = max t 1 := by
  have hd := decadeOf_le_of_lt_limit hr ((le_abs_self r).trans_lt h.abs_lt_limit)
  rcases niceStep_cases (Or.inr rfl) h hr with ⟨-, m, hm, heq, hfits⟩ | ⟨-, hinfinite⟩
  · rw [heq] at hs ⊢
    refine ⟨_, multiple_denotes (integerMultiples_subset hm) hd hfits, ?_⟩
    rw [← hs.value, (wholeStep_denotes hm hd hfits).value]
  · rw [hinfinite, one_denotes.larger_infinite] at hs
    exact absurd hs.isFinite Bool.false_ne_true

/-! ## The part of a span on one interval -/

section

variable {limit : ℕ} {span : Binary64} {w : ℚ}

/-- With three marks or more there are at least two intervals. -/
theorem two_le_intervals (h : 2 < limit) : 2 ≤ intervals limit ∧ intervals limit ≤ limit := by
  unfold intervals
  split <;> omega

/-- There is at least one interval. -/
theorem intervals_pos (limit : ℕ) : 0 < intervals limit := by
  unfold intervals
  split <;> omega

/-- The number of intervals is rounded by a small part only. -/
theorem nearest_intervals_bounds (limit : ℕ) : 1 ≤ double.nearest (intervals limit) ∧
    intervals limit - intervals limit / 2 ^ 53 ≤ double.nearest (intervals limit) ∧
      double.nearest (intervals limit) ≤ intervals limit + intervals limit / 2 ^ 53 := by
  have hcount : (1 : ℚ) ≤ intervals limit := by exact_mod_cast intervals_pos limit
  have hone : double.nearest 1 = 1 := one_denotes.nearest_eq
  have hsmallest := smallest_double_le (n := 60) (by decide)
  refine ⟨?_, nearest_double_bounds (by linarith)⟩
  rw [← hone]
  exact double.nearest_mono hcount

/-- The number of intervals of 64 bits is a number. -/
theorem intervals_denotes (hlimit : limit ≤ 2 ^ 64) :
    (Binary.ofInt .double (intervals limit)).Denotes (double.nearest (intervals limit)) := by
  have hcount : intervals limit ≤ 2 ^ 64 := by
    unfold intervals
    split <;> omega
  have hfits : double.Fits (intervals limit) := by
    apply fits_of_le_two_zpow (show (64 : ℤ) ≤ 1023 by decide)
    rw [Nat.abs_cast]
    exact_mod_cast hcount
  exact Binary.round_denotes false hfits

/-- The part of a span that falls on one interval. -/
def partOf (w : ℚ) (limit : ℕ) : ℚ :=
  double.nearest (w / double.nearest (intervals limit))

/-- The part of a finite span is a number. -/
theorem partOf_denotes (hlimit : limit ≤ 2 ^ 64) (h : span.Denotes w) :
    (span / Binary.ofInt .double (intervals limit)).Denotes (partOf w limit) := by
  obtain ⟨hone, -⟩ := nearest_intervals_bounds limit
  refine h.div (intervals_denotes hlimit) (by linarith) (h.fits.of_abs_le ?_)
  rw [abs_div, abs_of_pos (show 0 < double.nearest (intervals limit) by linarith)]
  exact div_le_self (abs_nonneg w) hone

/-- Where a finite span has two intervals or more, its part is at most half of it. -/
theorem partOf_le (hlow : 2 < limit) (h : span.Denotes w) : partOf w limit ≤ 2 ^ (1023 : ℤ) := by
  have htwo : double.nearest 2 = 2 := by
    have hint := hasIntegers_double.nearest_eq (n := 2) (by decide)
    rwa [Int.cast_ofNat] at hint
  have hcount : 2 ≤ double.nearest (intervals limit) := by
    rw [← htwo]
    exact double.nearest_mono (by exact_mod_cast (two_le_intervals hlow).1)
  have hhalf : |w| / 2 ≤ 2 ^ (1023 : ℤ) := by
    have hbound := h.abs_lt_limit.le
    rw [limit_double, show (1024 : ℤ) = 1023 + 1 by decide, zpow_add_one₀ two_ne_zero] at hbound
    exact (div_le_iff₀ two_pos).mpr hbound
  rw [← double.nearest_two_zpow (show double.minExponent ≤ 1023 by decide)]
  apply double.nearest_mono
  calc w / double.nearest (intervals limit) ≤ |w| / double.nearest (intervals limit) := by
        gcongr
        exact le_abs_self w
    _ ≤ |w| / 2 := by gcongr
    _ ≤ 2 ^ (1023 : ℤ) := hhalf

/-- The only interval takes the whole span. -/
theorem partOf_eq_self (hlimit : limit ≤ 2) (h : span.Denotes w) : partOf w limit = w := by
  rw [partOf, intervals, if_pos hlimit, Nat.cast_one, one_denotes.nearest_eq, div_one, h.nearest_eq]

/-- The part of a span that is not finite is not finite either. -/
theorem isFinite_part (hlimit : limit ≤ 2 ^ 64) (h : span.isFinite = false) :
    (span / Binary.ofInt .double (intervals limit)).isFinite = false := by
  obtain ⟨s, i, hs, -⟩ := (intervals_denotes hlimit).eq_finite
  rw [hs]
  cases span with
  | nan => rfl
  | infinite t => rfl
  | finite t j => exact absurd h.symm Bool.false_ne_true

/-- So many parts as there are intervals make up a positive span, but for the rounding. -/
theorem le_partOf_mul (hw : 0 ≤ w) :
    w ≤ (partOf w limit * (1 + 1 / 2 ^ 50) + double.smallest) * intervals limit := by
  obtain ⟨hone, -, habove⟩ := nearest_intervals_bounds limit
  have hpos : 0 < double.nearest (intervals limit) := by linarith
  have hquot : 0 ≤ w / double.nearest (intervals limit) := by positivity
  obtain ⟨hbelow, -⟩ := nearest_double_bounds_add hquot
  have hnonneg : 0 ≤ partOf w limit := double.nearest_nonneg hquot
  have hsmallest := double.smallest_pos
  have hpart : w / double.nearest (intervals limit) ≤ partOf w limit * (1 + 1 / 2 ^ 52) + double.smallest * (3 / 4) := by
    change _ ≤ partOf w limit at hbelow
    linarith
  calc w = w / double.nearest (intervals limit) * double.nearest (intervals limit) := (div_mul_cancel₀ w hpos.ne').symm
    _ ≤ (partOf w limit * (1 + 1 / 2 ^ 52) + double.smallest * (3 / 4)) * (intervals limit + intervals limit / 2 ^ 53) := by
        gcongr
    _ = ((partOf w limit * (1 + 1 / 2 ^ 52) + double.smallest * (3 / 4)) * (1 + 1 / 2 ^ 53)) * intervals limit := by ring
    _ ≤ (partOf w limit * (1 + 1 / 2 ^ 50) + double.smallest) * intervals limit := by
        gcongr
        linarith

/-- A span that is so many intervals of a power of two, and twice over, has a part of that power of two. -/
theorem le_partOf {e : ℤ} (he : double.minExponent ≤ e) (h : 2 ^ (e + 1) * intervals limit ≤ w) : 2 ^ e ≤ partOf w limit := by
  obtain ⟨hone, -, habove⟩ := nearest_intervals_bounds limit
  have hcount : (0 : ℚ) ≤ intervals limit := Nat.cast_nonneg _
  rw [← double.nearest_two_zpow he]
  apply double.nearest_mono
  rw [le_div_iff₀ (by linarith)]
  calc (2 : ℚ) ^ e * double.nearest (intervals limit) ≤ 2 ^ e * (2 * intervals limit) := by
        gcongr
        linarith
    _ = 2 ^ (e + 1) * intervals limit := by
        rw [zpow_add_one₀ two_ne_zero]
        ring
    _ ≤ w := h

/-! ## The step of a span -/

/-- The step of a span is 1, if the span is not finite or its part is not positive. Else it is the nice step of that part, which
is made whole if asked for. -/
theorem tickStep_cases (hlimit : limit ≤ 2 ^ 64) (span : Binary64) (whole : Bool) :
    (tickStep span limit whole = 1 ∧ ∀ w, span.Denotes w → partOf w limit ≤ 0) ∨
    ∃ raw : Binary64, ∃ w : ℚ, span.Denotes w ∧ raw.Denotes (partOf w limit) ∧ 0 < partOf w limit ∧
      tickStep span limit whole =
        if whole then ((niceStep raw integerMultiples).larger 1).roundHalfAway else niceStep raw niceMultiples := by
  unfold tickStep
  dsimp only
  cases hfinite : span.isFinite with
  | false =>
    left
    rw [isFinite_part hlimit hfinite, Bool.not_false, Bool.true_or, if_pos rfl]
    exact ⟨rfl, fun w hw => absurd (hfinite.symm.trans hw.isFinite) Bool.false_ne_true⟩
  | true =>
    have hspan := Binary.denotes_value hfinite
    generalize span.value = w at hspan
    have hraw := partOf_denotes hlimit hspan
    have hzero : (0 : Binary64).Denotes (0 : ℕ) := Binary.ofNat_denotes hasIntegers_double (by decide)
    have hle := hraw.le_iff hzero
    rw [Nat.cast_zero] at hle
    rw [hraw.isFinite, Bool.not_true, Bool.false_or]
    split
    · rename_i hneg
      refine Or.inl ⟨rfl, fun w' hw' => ?_⟩
      rw [← hw'.value, hspan.value]
      exact hle.mp hneg
    · rename_i hpos
      exact Or.inr ⟨_, w, hspan, hraw, not_le.mp (mt hle.mpr hpos), rfl⟩

/-- The values of steps: one, and the multiples of the powers of ten. -/
def IsStep (s : ℚ) : Prop :=
  s = 1 ∨ ∃ m ∈ niceMultiples, ∃ d ≤ 307, s = double.nearest (m.value * (powerOfTen d).value)

/-- A step is a finite number. -/
theorem tickStep_denotes (hlow : 2 < limit) (hlimit : limit ≤ 2 ^ 64) (span : Binary64) (whole : Bool) :
    ∃ s, (tickStep span limit whole).Denotes s ∧ IsStep s := by
  rcases tickStep_cases hlimit span whole with ⟨hone, -⟩ | ⟨raw, w, hspan, hraw, hpos, hstep⟩
  · exact ⟨1, by rw [hone]; exact one_denotes, Or.inl rfl⟩
  have hd := decadeOf_le hpos (partOf_le hlow hspan)
  rw [← hraw.value] at hd
  rw [hstep]
  cases whole with
  | false =>
    obtain ⟨m, hm, heq⟩ := niceStep_eq ten_mem_niceMultiples raw
    rw [if_neg Bool.false_ne_true, heq]
    exact ⟨_, multiple_denotes hm (by omega) (multiple_fits hm hd), Or.inr ⟨m, hm, _, hd, rfl⟩⟩
  | true =>
    obtain ⟨m, hm, heq⟩ := niceStep_eq ten_mem_integerMultiples raw
    have hm' := integerMultiples_subset hm
    rw [if_pos rfl, heq]
    refine ⟨_, wholeStep_denotes hm (by omega) (multiple_fits hm' hd), ?_⟩
    rcases max_choice (double.nearest (m.value * (powerOfTen (decadeOf raw.value)).value)) 1 with hmax | hmax
    · exact Or.inr ⟨m, hm', _, hd, hmax⟩
    · exact Or.inl hmax

/-- A span of no extent has step 1. -/
theorem tickStep_of_zero (hlimit : limit ≤ 2 ^ 64) (whole : Bool) (h : span.Denotes 0) :
    tickStep span limit whole = 1 := by
  rcases tickStep_cases hlimit span whole with ⟨hone, -⟩ | ⟨raw, w, hspan, -, hpos, -⟩
  · exact hone
  · rw [← hspan.value, h.value, partOf, zero_div, nearest_zero] at hpos
    exact absurd rfl hpos.ne

/-- So many finite steps as there are intervals make up a positive span, but for the part that is forgiven and the rounding, if the
step is whole, or the part of the span on one interval is none or a good many of the smallest units. -/
theorem span_le_step_mul (hlimit : limit ≤ 2 ^ 64) {whole : Bool} (h : span.Denotes w) (hw : 0 < w) {s : ℚ}
    (hs : (tickStep span limit whole).Denotes s)
    (hpart : whole = true ∨ partOf w limit = 0 ∨ 2 ^ 32 * double.smallest ≤ partOf w limit) :
    w * (1 - 2 / 10 ^ 9) ≤ s * intervals limit := by
  have hsmallest := double.smallest_pos
  have htiny := smallest_double_le (n := 50) (by decide)
  -- what a step has to reach for that
  suffices hreach : (partOf w limit * (1 + 1 / 2 ^ 50) + double.smallest) * (1 - 2 / 10 ^ 9) ≤ s by
    calc w * (1 - 2 / 10 ^ 9)
        ≤ (partOf w limit * (1 + 1 / 2 ^ 50) + double.smallest) * intervals limit * (1 - 2 / 10 ^ 9) :=
          mul_le_mul_of_nonneg_right (le_partOf_mul hw.le) (by norm_num)
      _ = (partOf w limit * (1 + 1 / 2 ^ 50) + double.smallest) * (1 - 2 / 10 ^ 9) * intervals limit := by ring
      _ ≤ s * intervals limit := mul_le_mul_of_nonneg_right hreach (Nat.cast_nonneg _)
  rcases tickStep_cases hlimit span whole with ⟨hone, hnone⟩ | ⟨raw, w', hspan, hraw, hpos, hstep⟩
  · rw [← hs.value, hone, one_denotes.value]
    linarith [hnone w h]
  obtain rfl : w' = w := by rw [← hspan.value, h.value]
  rw [hstep] at hs
  cases whole with
  | false =>
    rw [if_neg Bool.false_ne_true] at hs
    rcases hpart with hwhole | hzero | hunits
    · exact absurd hwhole Bool.false_ne_true
    · exact absurd hzero hpos.ne'
    · linarith [le_niceStep hraw hpos hunits hs]
  | true =>
    rw [if_pos rfl] at hs
    obtain ⟨t, ht, rfl⟩ := wholeStep_max hraw hpos hs
    rcases le_or_gt (2 ^ 32 * double.smallest) (partOf w' limit) with hunits | hfew
    · linarith [le_niceStep hraw hpos hunits ht, le_max_left t 1]
    · linarith [le_max_right t 1]

end

end StreamCharts
